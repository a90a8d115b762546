import Simurga.Wire

/-!
# What comes in

`handler` puts the records of each connection together from what the `read`
calls give it, one piece at each call, between the records of the other
connections. A `Session` is what the log says of a descriptor since it was
opened; `Receiving` is the invariant: its bytes are the messages passed on
and, behind them, the part of a record that is in its buffer.

`accept` gives a descriptor that is not polled already; that is what the
operating system promises, and all that is used of it.
-/

namespace Simurga

open Protocol

namespace Transceiver

/-! ## Sessions -/

/-- The bytes received on a descriptor since it was opened, and the messages
passed on. -/
structure Session where
  received : Bytes := []
  messages : List Bytes := []
deriving DecidableEq

def Session.next (fd : Nat) (s : Session) : Event → Session
  | .opened fd' | .closed fd' | .erased fd' => if fd' = fd then {} else s
  | .received fd' got => if fd' = fd then { s with received := s.received ++ got } else s
  | .message fd' _ message =>
      if fd' = fd then { s with messages := s.messages ++ [message] } else s
  | .secured _ | .wrote _ _ | .refused _ _ => s

def session (fd : Nat) (log : List Event) : Session := log.foldl (Session.next fd) {}

theorem session_append (fd : Nat) (log es : List Event) :
    session fd (log ++ es) = es.foldl (Session.next fd) (session fd log) := List.foldl_append

/-- What is in the buffer of a connection. -/
def FdBuffer.pending (b : FdBuffer) : Bytes :=
  match b.data with
  | none => Memory.load b.headerBuffer 0 b.size
  | some data => Memory.load data 0 b.size

/-- A buffer holds less than a record. -/
structure FdBuffer.Unfinished (b : FdBuffer) : Prop where
  header : b.data = none → b.size < Header.size
  body : ∀ data, b.data = some data → Header.size ≤ b.size
    ∧ b.size < recordSize (Memory.load data 0 b.size)
    ∧ Memory.load data 0 Header.size = Memory.load b.headerBuffer 0 Header.size

/-- What was received are messages, each a record, and what is pending. -/
structure Session.Splits (s : Session) (pending : Bytes) : Prop where
  received : s.received = s.messages.flatten ++ pending
  isRecord : ∀ m ∈ s.messages, IsRecord m

/-- The buffer of a descriptor, or none, after its session. -/
structure Fits (b : Option FdBuffer) (s : Session) : Prop where
  splits : s.Splits (b.elim [] FdBuffer.pending)
  unfinished : ∀ b', b = some b' → b'.Unfinished

/-- A message carries the id of its own header. -/
def Addressed (log : List Event) : Prop :=
  ∀ fd id message, .message fd id message ∈ log →
    id = ⟨(Header.ofBytes message).getRequestId, UInt16.ofNat fd⟩

/-- No descriptor is polled twice, and none has a buffer unless it is
polled. -/
structure Polled (t : Transceiver) : Prop where
  nodup : t.pollFds.Nodup
  polled : ∀ fd, t.fdBuffers fd ≠ none → fd ∈ t.pollFds

/-- The invariant of the receiving side. -/
structure Receiving (t : Transceiver) : Prop extends Polled t where
  fits : ∀ fd, Fits (t.fdBuffers fd) (session fd t.log)
  addressed : Addressed t.log

variable {t t' : Transceiver} {fd : Nat} {b : FdBuffer} {s : Session} {q got : Bytes}

/-! ## Sessions and events -/

theorem Session.Splits.nil : Session.Splits {} [] := ⟨rfl, by simp⟩

theorem Fits.none : Fits none {} := ⟨.nil, by simp⟩

theorem Session.Splits.receive (h : s.Splits q) (got : Bytes) :
    Session.Splits { s with received := s.received ++ got } (q ++ got) :=
  ⟨by rw [h.received, List.append_assoc], h.isRecord⟩

theorem Session.Splits.deliver (h : s.Splits q) (hq : IsRecord q) :
    Session.Splits { s with messages := s.messages ++ [q] } [] := by
  refine ⟨by simpa using h.received, fun m hm => ?_⟩
  rcases List.mem_append.mp hm with hm | hm
  · exact h.isRecord m hm
  · rwa [List.mem_singleton.mp hm]

theorem session_received (fd : Nat) (t : Transceiver) (got : Bytes) :
    session fd (t.record (.received fd got)).log
      = { session fd t.log with received := (session fd t.log).received ++ got } := by
  rw [record, session_append]
  exact if_pos rfl

theorem session_message (fd : Nat) (t : Transceiver) (id : FullId) (message : Bytes) :
    session fd (t.record (.message fd id message)).log
      = { session fd t.log with messages := (session fd t.log).messages ++ [message] } := by
  rw [record, session_append]
  exact if_pos rfl

theorem session_record_ne {fd' : Nat} (h : fd ≠ fd') (t : Transceiver) (got : Bytes) :
    session fd' (t.record (.received fd got)).log = session fd' t.log := by
  rw [record, session_append]
  exact if_neg h

theorem session_message_ne {fd' : Nat} (h : fd ≠ fd') (t : Transceiver) (id : FullId)
    (message : Bytes) : session fd' (t.record (.message fd id message)).log = session fd' t.log := by
  rw [record, session_append]
  exact if_neg h

/-- Events that begin or end the session of a descriptor. -/
def Event.Resets (fd : Nat) (e : Event) : Prop := e = .opened fd ∨ e = .closed fd ∨ e = .erased fd

theorem session_resets {e : Event} (he : e.Resets fd) (log : List Event) :
    session fd (log ++ [e]) = {} := by
  rw [session_append]
  rcases he with rfl | rfl | rfl <;> exact if_pos rfl

theorem session_resets_ne {fd' : Nat} {e : Event} (he : e.Resets fd) (h : fd' ≠ fd)
    (log : List Event) : session fd' (log ++ [e]) = session fd' log := by
  rw [session_append]
  rcases he with rfl | rfl | rfl <;> exact if_neg (Ne.symm h)

theorem Addressed.resets {log : List Event} {e : Event} (h : Addressed log) (he : e.Resets fd) :
    Addressed (log ++ [e]) := by
  intro fd' id message hm
  rcases List.mem_append.mp hm with hm | hm
  · exact h fd' id message hm
  · rw [List.mem_singleton] at hm
    rcases he with rfl | rfl | rfl <;> cases hm

theorem Addressed.append {log es : List Event} (h : Addressed log) (hes : Addressed es) :
    Addressed (log ++ es) := by
  intro fd id message hm
  rcases List.mem_append.mp hm with hm | hm
  · exact h fd id message hm
  · exact hes fd id message hm

/-! ## The buffer of one descriptor -/

/-- A state that is as it should be but for the buffer of one descriptor. -/
structure Apart (fd : Nat) (t : Transceiver) : Prop extends Polled t where
  mem : fd ∈ t.pollFds
  fits : ∀ fd', fd' ≠ fd → Fits (t.fdBuffers fd') (session fd' t.log)
  addressed : Addressed t.log

theorem Receiving.apart (h : t.Receiving) (hfd : fd ∈ t.pollFds) : Apart fd t :=
  ⟨h.toPolled, hfd, fun fd' _ => h.fits fd', h.addressed⟩

theorem Apart.received (h : Apart fd t) (got : Bytes) : Apart fd (t.record (.received fd got)) where
  nodup := h.nodup
  polled := h.polled
  mem := h.mem
  fits fd' hne := by
    rw [session_record_ne (Ne.symm hne)]
    exact h.fits fd' hne
  addressed := h.addressed.append fun fd id message hm => by simp at hm

theorem Apart.message (h : Apart fd t) {message : Bytes} {id : FullId}
    (hid : id = ⟨(Header.ofBytes message).getRequestId, UInt16.ofNat fd⟩) :
    Apart fd (t.record (.message fd id message)) where
  nodup := h.nodup
  polled := h.polled
  mem := h.mem
  fits fd' hne := by
    rw [session_message_ne (Ne.symm hne)]
    exact h.fits fd' hne
  addressed := h.addressed.append fun fd' id' message' hm => by
    rw [List.mem_singleton] at hm
    cases hm
    exact hid

theorem fdBuffers_setFdBuffer (t : Transceiver) (fd : Nat) (b : FdBuffer) :
    (t.setFdBuffer fd b).fdBuffers fd = some b := Function.update_self ..

theorem fdBuffers_setFdBuffer_ne {fd' : Nat} (h : fd' ≠ fd) (t : Transceiver) (b : FdBuffer) :
    (t.setFdBuffer fd b).fdBuffers fd' = t.fdBuffers fd' := Function.update_of_ne h ..

theorem Apart.setFdBuffer (h : Apart fd t) (b : FdBuffer) : Apart fd (t.setFdBuffer fd b) where
  nodup := h.nodup
  polled fd' hfd' := by
    by_cases heq : fd' = fd
    · rw [heq]
      exact h.mem
    · exact h.polled fd' (by rwa [fdBuffers_setFdBuffer_ne heq] at hfd')
  mem := h.mem
  fits fd' hne := by
    rw [fdBuffers_setFdBuffer_ne hne]
    exact h.fits fd' hne
  addressed := h.addressed

/-- With its buffer the state is as it should be. -/
theorem Apart.receiving (h : Apart fd t) (hfd : Fits (t.fdBuffers fd) (session fd t.log)) :
    t.Receiving := by
  refine ⟨h.toPolled, fun fd' => ?_, h.addressed⟩
  by_cases heq : fd' = fd
  · rw [heq]
    exact hfd
  · exact h.fits fd' heq

theorem Apart.setFdBuffer_receiving (h : Apart fd t) (hb : Fits (some b) (session fd t.log)) :
    (t.setFdBuffer fd b).Receiving := by
  refine (h.setFdBuffer b).receiving ?_
  rw [fdBuffers_setFdBuffer]
  exact hb

/-! ## Reading -/

/-- Bytes read behind what is there. -/
theorem load_store_zero (m : Nat → UInt8) (n : Nat) (got : Bytes) :
    Memory.load (Memory.store m n got) 0 (n + got.length) = Memory.load m 0 n ++ got := by
  have hload := Memory.load_store m n got
  rw [Memory.load_add, Memory.load_store_before (by omega), Nat.zero_add, hload]

/-- The header of a record in memory. -/
theorem ofBytes_load (m : Nat → UInt8) {n : Nat} (h : Header.size ≤ n) :
    Header.ofBytes (Memory.load m 0 n) = headerOf m := by
  obtain ⟨k, rfl⟩ := Nat.exists_eq_add_of_le h
  rw [Memory.load_add, Header.ofBytes_append (by rw [Memory.length_load])]
  rfl

theorem recordSize_load (m : Nat → UInt8) {n : Nat} (h : Header.size ≤ n) :
    recordSize (Memory.load m 0 n)
      = (headerOf m).getContentLength + (headerOf m).getPaddingLength + Header.size := by
  rw [recordSize, ofBytes_load m h]
  omega

/-- The body of a record: the rest of it is read into its memory, and a
whole record is passed on. -/
theorem receiveBody_spec (h : Apart fd t) {data : Nat → UInt8} (transmitEmpty : Bool) (r : Read)
    (hs : (session fd t.log).Splits (Memory.load data 0 b.size)) (hsize : Header.size ≤ b.size)
    (hle : b.size ≤ recordSize (Memory.load data 0 b.size))
    (hheader : Memory.load data 0 Header.size = Memory.load b.headerBuffer 0 Header.size) :
    (t.receiveBody fd transmitEmpty b data r).1.Receiving := by
  rw [recordSize_load data hsize] at hle
  have hkept : ∀ data' size', Header.size ≤ size' →
      Memory.load data' 0 Header.size = Memory.load data 0 Header.size →
      size' < (headerOf data).getContentLength + (headerOf data).getPaddingLength + Header.size →
      FdBuffer.Unfinished { b with size := size', data := some data' } := by
    intro data' size' hsize' hsame hlt
    refine ⟨nofun, fun d hd => ?_⟩
    cases hd
    refine ⟨hsize', ?_, hsame.trans hheader⟩
    rw [recordSize_load data' hsize', headerOf, hsame]
    exact hlt
  unfold receiveBody
  dsimp only
  generalize hneeded : (headerOf data).getContentLength + (headerOf data).getPaddingLength
    + Header.size - b.size = needed
  have hpending : ∀ data', FdBuffer.pending { b with data := some data' }
      = Memory.load data' 0 b.size := fun _ => rfl
  -- a read that gives nothing, of at least one byte
  have hnothing : needed ≠ 0 → (t.setFdBuffer fd { b with data := some data }).Receiving :=
    fun hne => h.setFdBuffer_receiving ⟨hs, fun b' hb' => by
      cases hb'
      exact hkept data b.size hsize rfl (by omega)⟩
  split
  · rename_i hr
    refine hnothing fun h0 => ?_
    rw [if_pos h0] at hr
    cases hr
  · rename_i hr
    refine hnothing fun h0 => ?_
    rw [if_pos h0] at hr
    cases hr
  · rename_i s hr
    generalize hgot : s.take needed = got
    have hgotlen : got.length ≤ needed := by
      rw [← hgot]
      exact List.length_take_le ..
    have hload := load_store_zero data b.size got
    have hs' := hs.receive got
    rw [← hload, ← session_received] at hs'
    have hsame : Memory.load (Memory.store data b.size got) 0 Header.size
        = Memory.load data 0 Header.size := Memory.load_store_before (by omega)
    have hapart := h.received got
    split
    · rename_i hfull
      have hlen : Header.size ≤ b.size + got.length := by omega
      have hrecord : IsRecord (Memory.load (Memory.store data b.size got) 0 (b.size + got.length)) := by
        refine ⟨by rwa [Memory.length_load], ?_⟩
        rw [Memory.length_load, recordSize_load _ hlen, headerOf, hsame]
        change _ = (headerOf data).getContentLength + (headerOf data).getPaddingLength + _
        omega
      refine (hapart.message ?_).setFdBuffer_receiving ⟨?_, fun b' hb' => ?_⟩
      · rw [ofBytes_load _ hlen, headerOf, headerOf, hsame, hheader]
      · rw [session_message]
        exact hs'.deliver hrecord
      · cases hb'
        exact ⟨fun _ => by simp [Header.size], fun d hd => by cases hd⟩
    · refine hapart.setFdBuffer_receiving ⟨hs', fun b' hb' => ?_⟩
      cases hb'
      exact hkept _ _ (by omega) hsame (by omega)

/-- The buffer that `handler` works on, which it makes when there is none. -/
theorem Receiving.fits_fdBuffer (h : t.Receiving) (fd : Nat) :
    Fits (some (t.fdBuffer fd)) (session fd t.log) := by
  have hfits := h.fits fd
  unfold fdBuffer
  cases hb : t.fdBuffers fd with
  | none =>
      rw [hb] at hfits
      exact ⟨hfits.splits, fun b' hb' => by
        cases hb'
        exact ⟨fun _ => by simp [Header.size], nofun⟩⟩
  | some b =>
      rw [hb] at hfits
      exact hfits

/-- Without a descriptor, and with its session over. -/
theorem Receiving.drop (h : t.Receiving) {pollFds : List Nat} {e : Event}
    (he : e.Resets fd) (hnodup : pollFds.Nodup)
    (hmem : ∀ fd' ∈ t.pollFds, fd' ≠ fd → fd' ∈ pollFds) :
    Receiving { t with pollFds, fdBuffers := Function.update t.fdBuffers fd none
                       log := t.log ++ [e] } where
  nodup := hnodup
  polled fd' hfd' := by
    dsimp only at hfd'
    by_cases heq : fd' = fd
    · rw [heq, Function.update_self] at hfd'
      exact absurd rfl hfd'
    · rw [Function.update_of_ne heq] at hfd'
      exact hmem fd' (h.polled fd' hfd') heq
  fits fd' := by
    dsimp only
    by_cases heq : fd' = fd
    · rw [heq, Function.update_self, session_resets he]
      exact .none
    · rw [Function.update_of_ne heq, session_resets_ne he heq]
      exact h.fits fd'
  addressed := h.addressed.resets he

theorem Receiving.erasePollFd (h : t.Receiving) (pollFd : Option Nat) :
    (t.erasePollFd pollFd).1.Receiving := by
  unfold Transceiver.erasePollFd
  split
  · exact h
  · rename_i index
    split
    · exact h
    · rename_i fd hfd
      refine h.drop (.inr (.inr rfl)) (h.nodup.sublist (List.eraseIdx_sublist ..)) fun fd' hfd' hne => ?_
      obtain ⟨i, hi, rfl⟩ := List.mem_iff_getElem.mp hfd'
      refine List.mem_eraseIdx_iff_getElem?.mpr ⟨i, fun heq => hne ?_, List.getElem?_eq_getElem hi⟩
      rw [heq] at hi
      rw [List.getElem?_eq_getElem hi, Option.some.injEq] at hfd
      rw [← hfd]
      simp only [heq]

theorem Receiving.receive (h : t.Receiving) (hfd : fd ∈ t.pollFds) (pollFd : Option Nat)
    (transmitEmpty : Bool) (header body : Read) :
    (t.receive fd pollFd transmitEmpty header body).1.Receiving := by
  obtain ⟨hsplits, hunfinished⟩ := h.fits_fdBuffer fd
  have hunfinished := hunfinished _ rfl
  have hapart := h.apart hfd
  rw [Option.elim_some] at hsplits
  unfold Transceiver.receive
  dsimp only
  generalize t.fdBuffer fd = b at hsplits hunfinished ⊢
  have hkept : (t.setFdBuffer fd b).Receiving :=
    hapart.setFdBuffer_receiving ⟨hsplits, fun b' hb' => by cases hb'; exact hunfinished⟩
  cases hdata : b.data with
  | some data =>
      obtain ⟨hsize, hlt, hheader⟩ := hunfinished.body data hdata
      rw [FdBuffer.pending, hdata] at hsplits
      exact receiveBody_spec hapart transmitEmpty body hsplits hsize (Nat.le_of_lt hlt) hheader
  | none =>
      have hsize := hunfinished.header hdata
      rw [FdBuffer.pending, hdata] at hsplits
      cases header with
      | failed => exact hkept
      | again =>
          dsimp only
          rw [if_neg (Nat.ne_of_lt hsize)]
          exact hkept
      | data s =>
          dsimp only
          generalize hgot : s.take (Header.size - b.size) = got
          have hgotlen : got.length ≤ Header.size - b.size := by
            rw [← hgot]
            exact List.length_take_le ..
          have hs := hsplits.receive got
          rw [← load_store_zero, ← session_received] at hs
          obtain ⟨b', hb⟩ : ∃ b' : FdBuffer, b' = { headerBuffer := Memory.store b.headerBuffer b.size got
                                                    size := b.size + got.length } := ⟨_, rfl⟩
          have hb'data : b'.data = none := by rw [hb]
          have hb'size : b'.size = b.size + got.length := by rw [hb]
          have hpending : Memory.load (Memory.store b.headerBuffer b.size got) 0
              (b.size + got.length) = b'.pending := by
            rw [FdBuffer.pending, hb'data, hb]
          have hs' := hs
          rw [hpending] at hs'
          have hapart' := hapart.received got
          -- less than a header
          have hshort : b'.size ≠ Header.size →
              ((t.record (.received fd got)).setFdBuffer fd b').Receiving := by
            intro hne
            refine hapart'.setFdBuffer_receiving ⟨hs', fun b'' hb'' => ?_⟩
            cases hb''
            refine ⟨fun _ => by omega, fun d hd => ?_⟩
            rw [hb'data] at hd
            cases hd
          split
          · rename_i hnil
            rw [← hb]
            refine (hshort ?_).erasePollFd pollFd
            rw [hnil] at hb'size
            simp only [List.length_nil] at hb'size
            omega
          · split
            · rename_i hfull
              rw [← hb'size] at hs
              rw [← hb]
              refine receiveBody_spec (hapart'.setFdBuffer b') transmitEmpty body hs
                (by omega) ?_ (by rw [hb])
              rw [hb'size, hfull]
              exact size_le_recordSize _
            · rename_i hne
              rw [← hb]
              exact hshort (by omega)

theorem Receiving.accept (h : t.Receiving) {new : Nat} (hnew : new ∉ t.pollFds) :
    (t.accept new).Receiving := by
  have hnone : t.fdBuffers new = none := by
    by_contra hsome
    exact hnew (h.polled new hsome)
  have hbuffer : t.fdBuffer new = {} := by rw [fdBuffer, hnone, Option.getD_none]
  refine ⟨⟨?_, fun fd hfd => ?_⟩, fun fd => ?_, ?_⟩
  · refine List.nodup_append.mpr ⟨h.nodup, List.nodup_singleton new, fun a ha b hb => ?_⟩
    rw [List.mem_singleton.mp hb]
    exact fun heq => hnew (heq ▸ ha)
  · by_cases heq : fd = new
    · exact List.mem_append_right _ (List.mem_singleton.mpr heq)
    · refine List.mem_append_left _ (h.polled fd ?_)
      simpa [Transceiver.accept, Function.update_of_ne heq] using hfd
  · rw [Transceiver.accept]
    dsimp only
    rw [hbuffer]
    by_cases heq : fd = new
    · rw [heq, Function.update_self, session_resets (.inl rfl)]
      refine ⟨.nil, fun b' hb' => ?_⟩
      cases hb'
      exact ⟨fun _ => by simp [Header.size], nofun⟩
    · rw [Function.update_of_ne heq, session_resets_ne (.inl rfl) heq]
      exact h.fits fd
  · exact h.addressed.resets (.inl rfl)

theorem Receiving.poll (h : t.Receiving) {p : Poll} (transmitEmpty : Bool)
    (hnew : ∀ new, p.accepted = some new → new ∉ t.pollFds) :
    (t.poll transmitEmpty p).1.Receiving := by
  unfold Transceiver.poll
  split
  · exact h
  · exact h
  · rename_i index hangup _
    split
    · exact h
    · rename_i fd hfd
      have hmem := List.mem_of_getElem? hfd
      split
      · exact h.erasePollFd _
      · split
        · split
          · exact h
          · rename_i new haccepted
            exact (h.accept (hnew new haccepted)).receive
              (List.mem_append_right _ (List.mem_singleton.mpr rfl)) _ _ _ _
        · split
          · exact h
          · exact h.receive hmem _ _ _ _

/-! ## What sending leaves alone -/

/-- Events of no session. -/
def Event.Quiet (e : Event) : Prop := ∀ fd s, Session.next fd s e = s

/-- What the sending functions do to the receiving side: nothing, but that
they close connections. -/
inductive Send (t : Transceiver) : Transceiver → Prop where
  | quiet {t' : Transceiver} (es : List Event) (hpollFds : t'.pollFds = t.pollFds)
      (hfdBuffers : t'.fdBuffers = t.fdBuffers) (hsocket : t'.socket = t.socket)
      (hlog : t'.log = t.log ++ es) (hes : ∀ e ∈ es, e.Quiet) : Send t t'
  | freeFd (fd : Nat) : Send t (t.freeFd fd)

abbrev Sends : Transceiver → Transceiver → Prop := Relation.ReflTransGen Send

variable {w : World}

theorem Sends.quiet {es : List Event} (hpollFds : t'.pollFds = t.pollFds)
    (hfdBuffers : t'.fdBuffers = t.fdBuffers) (hsocket : t'.socket = t.socket)
    (hlog : t'.log = t.log ++ es) (hes : ∀ e ∈ es, e.Quiet) : Sends t t' :=
  .single (.quiet es hpollFds hfdBuffers hsocket hlog hes)

theorem Sends.buffer (t : Transceiver) (b : Buffer) (calls : Nat) :
    Sends t { t with buffer := b, calls := calls } :=
  .quiet rfl rfl rfl (List.append_nil _).symm (by simp)

theorem Sends.record (t : Transceiver) {e : Event} (he : e.Quiet) : Sends t (t.record e) :=
  .quiet rfl rfl rfl rfl fun e' he' => by rwa [List.mem_singleton.mp he']

theorem freeRead_sends (t : Transceiver) (sent : Int) (size : Nat) :
    Sends t (t.freeRead sent size).1 := by
  unfold freeRead
  split
  · exact .refl
  · rename_i b closed _
    cases closed with
    | none => exact .buffer t b t.calls
    | some fd => exact (Sends.buffer t b t.calls).tail (.freeFd _)

theorem turn_sends (w : World) (t : Transceiver) : Sends t (t.turn w).1 := by
  have hcalls : Sends t { t with calls := t.calls + 1 } := .buffer t t.buffer _
  unfold turn
  split
  · exact .refl
  · split
    · exact .refl
    · dsimp only
      split
      · exact (hcalls.trans (Sends.record _ fun _ _ => rfl)).trans (freeRead_sends ..)
      · exact ((hcalls.trans (Sends.record _ fun _ _ => rfl)).tail (.freeFd _)).trans (freeRead_sends ..)
      · exact hcalls.trans (freeRead_sends ..)
      · exact hcalls

theorem turns_sends (w : World) (n : Nat) (t : Transceiver) : Sends t (turns w n t).1 := by
  induction n generalizing t with
  | zero => exact .refl
  | succ n ih =>
      have hturn := turn_sends w t
      rw [turns]
      generalize t.turn w = r at hturn ⊢
      obtain ⟨t', _ | r⟩ := r
      · exact hturn.trans (ih t')
      · exact hturn

theorem transmit_sends (w : World) (t : Transceiver) : Sends t (transmit w t).1 :=
  turns_sends w _ t

theorem secureWrite_sends (w : World) (t : Transceiver) (size : Nat) (id : FullId) (kill : Bool) :
    Sends t (secureWrite w t size id kill).1 := by
  have hsecured : Sends t
      { t.record (.secured { id, data := t.buffer.block 0 size, closeFd := kill }) with
        buffer := t.buffer.secureWrite (w.fresh t.calls) size id kill } :=
    .quiet rfl rfl rfl rfl fun e he => by
      rw [List.mem_singleton.mp he]
      exact fun _ _ => rfl
  exact hsecured.trans (transmit_sends ..)

theorem writeRecords_sends (w : World) (id : FullId) (type : RecordType) (n : Nat) (s : Bytes)
    (t : Transceiver) : Sends t (FcgistreamSink.writeRecords w id type n s t).1 := by
  induction n generalizing s t with
  | zero => exact .refl
  | succ n ih =>
      have hrecord : Sends t (FcgistreamSink.writeRecord w id type s t).1 := by
        unfold FcgistreamSink.writeRecord
        dsimp only
        exact (Sends.buffer t _ t.calls).trans (secureWrite_sends ..)
      rw [FcgistreamSink.writeRecords]
      generalize FcgistreamSink.writeRecord w id type s t = r at hrecord ⊢
      split
      · exact .refl
      · obtain ⟨t', _ | s'⟩ := r
        · exact hrecord
        · exact hrecord.trans (ih s' t')

theorem smallRecord_sends (w : World) (id : FullId) (type : RecordType) (requestId : UInt16)
    (setBody : Bytes → Bytes) (kill : Bool) (t : Transceiver) :
    Sends t (smallRecord w id type requestId setBody kill t).1 := by
  unfold smallRecord
  dsimp only
  exact (Sends.buffer t _ t.calls).trans (secureWrite_sends ..)

theorem endRequest_sends (w : World) (id : FullId) (status : Protocol.ProtocolStatus)
    (killCon : Bool) (t : Transceiver) : Sends t (endRequest w id status killCon t).1 := by
  unfold endRequest
  exact smallRecord_sends ..

theorem localHandler_sends (w : World) (id : FullId) (message : Bytes) (t : Transceiver) :
    Sends t (localHandler w id message t).1 := by
  unfold localHandler
  dsimp only
  split
  · split
    · exact .refl
    · exact .refl
    · exact (Sends.buffer t _ t.calls).trans (secureWrite_sends ..)
  · exact smallRecord_sends ..

/-- A call other than `handler` does nothing but send. -/
theorem Call.run_sends (w : World) (t : Transceiver) {c : Call} (hc : ∀ p, c ≠ .handler p) :
    Sends t (c.run w t).1 := by
  cases c with
  | write id stream s => exact writeRecords_sends w id stream.type s.length s t
  | endRequest id status killCon => exact endRequest_sends w id status killCon t
  | localHandler id message => exact localHandler_sends w id message t
  | handler p => exact absurd rfl (hc p)

theorem session_quiet {es : List Event} (hes : ∀ e ∈ es, e.Quiet) (fd : Nat) (log : List Event) :
    session fd (log ++ es) = session fd log := by
  rw [session_append]
  generalize session fd log = s
  induction es with
  | nil => rfl
  | cons e es ih =>
      rw [List.foldl_cons, hes e (List.mem_cons_self ..)]
      exact ih fun e he => hes e (List.mem_cons_of_mem _ he)

theorem Event.Quiet.not_message {e : Event} (he : e.Quiet) {id : FullId} {message : Bytes} :
    e ≠ .message fd id message := by
  rintro rfl
  have := congrArg (List.length ∘ Session.messages) (he fd {})
  simp [Session.next] at this

theorem Event.Quiet.not_opened {e : Event} (he : e.Quiet) : e ≠ .opened fd := by
  rintro rfl
  have := congrArg Session.received (he fd { received := [0] })
  simp [Session.next] at this

theorem Receiving.send (h : t.Receiving) (hsend : Send t t') : t'.Receiving := by
  cases hsend with
  | quiet es hpollFds hfdBuffers hsocket hlog hes =>
      refine ⟨⟨hpollFds ▸ h.nodup, fun fd hfd => ?_⟩, fun fd => ?_, fun fd id message hm => ?_⟩
      · rw [hpollFds]
        exact h.polled fd (hfdBuffers ▸ hfd)
      · rw [hfdBuffers, hlog, session_quiet hes]
        exact h.fits fd
      · rw [hlog] at hm
        rcases List.mem_append.mp hm with hm | hm
        · exact h.addressed fd id message hm
        · exact absurd rfl (hes _ hm).not_message
  | freeFd fd =>
      unfold freeFd
      split
      · exact h.drop (.inr (.inl rfl)) (h.nodup.erase fd) fun fd' hfd' hne =>
          (List.mem_erase_of_ne hne).mpr hfd'
      · exact h

theorem Receiving.sends (h : t.Receiving) (hsends : Sends t t') : t'.Receiving := by
  induction hsends with
  | refl => exact h
  | tail _ hsend ih => exact ih.send hsend

/-! ## Runs -/

/-- What `accept` gives is not polled already. -/
def FreshAccept (w : World) (_ : List Ended) (t : Transceiver) (c : Call) : Prop :=
  ∀ p new, c = .handler p → p.accepted = some new → new ∉ (transmit w t).1.pollFds

section Run

variable {data : Nat → UInt8} {socket wakeUpFdIn : Nat} {hist : List Ended}

theorem Receiving.init (hfds : socket ≠ wakeUpFdIn) : (init data socket wakeUpFdIn).Receiving where
  nodup := by simpa [Transceiver.init] using hfds
  polled fd hfd := absurd rfl hfd
  fits _ := .none
  addressed _ _ _ hm := by simp [Transceiver.init] at hm

theorem Receiving.handler (h : t.Receiving) {p : Poll}
    (hnew : ∀ new, p.accepted = some new → new ∉ (transmit w t).1.pollFds) :
    (handler w p t).1.Receiving := by
  have hsends := transmit_sends w t
  unfold Transceiver.handler
  generalize transmit w t = r at hsends hnew ⊢
  obtain ⟨t', _ | transmitEmpty⟩ := r
  · exact h.sends hsends
  · exact (h.sends hsends).poll transmitEmpty hnew

theorem receiving_of_run (hfds : socket ≠ wakeUpFdIn)
    (h : Machine.Reach (callStep w) (FreshAccept w) (init data socket wakeUpFdIn) hist t) :
    t.Receiving := by
  refine h.invariant (fun _ t => t.Receiving) (.init hfds) fun {_ _ t _ c} hreceiving hok hstep => ?_
  obtain ⟨rfl, -⟩ := callStep_eq_some hstep
  cases c with
  | handler p => exact hreceiving.handler fun new => hok p new rfl
  | write id stream s => exact hreceiving.sends (Call.run_sends w t nofun)
  | endRequest id status killCon => exact hreceiving.sends (Call.run_sends w t nofun)
  | localHandler id message => exact hreceiving.sends (Call.run_sends w t nofun)

/-- A buffer between two calls holds no whole record. -/
theorem FdBuffer.Unfinished.cut (h : b.Unfinished) : records.cut b.pending = none := by
  change cutRecord b.pending = none
  rw [cutRecord, if_neg]
  rintro ⟨hheader, hrecord⟩
  unfold FdBuffer.pending at hheader hrecord
  cases hdata : b.data with
  | none =>
      have := h.header hdata
      rw [hdata] at hheader
      dsimp only at hheader
      rw [Memory.length_load] at hheader
      omega
  | some data =>
      have := (h.body data hdata).2.1
      rw [hdata] at hrecord
      dsimp only at hrecord
      rw [Memory.length_load] at hrecord
      omega

/-- However the bytes of the connections come, piece by piece and one among
the other: the messages of each are the records of its bytes, with the ids
of their headers, and what is left of the bytes is in its buffer. -/
theorem reassembled (hfds : socket ≠ wakeUpFdIn)
    (h : Machine.Reach (callStep w) (FreshAccept w) (init data socket wakeUpFdIn) hist t) :
    (∀ fd, records.frames (session fd t.log).received
        = ((session fd t.log).messages, (t.fdBuffers fd).elim [] FdBuffer.pending))
      ∧ ∀ fd id message, .message fd id message ∈ t.log →
        id = ⟨(Header.ofBytes message).getRequestId, UInt16.ofNat fd⟩ := by
  have hreceiving := receiving_of_run hfds h
  refine ⟨fun fd => ?_, hreceiving.addressed⟩
  obtain ⟨⟨hreceived, hrecord⟩, hunfinished⟩ := hreceiving.fits fd
  have hrest : records.frames ((t.fdBuffers fd).elim [] FdBuffer.pending)
      = ([], (t.fdBuffers fd).elim [] FdBuffer.pending) := by
    cases hb : t.fdBuffers fd with
    | none => rfl
    | some b => exact Framing.Cutter.frames_of_none (hunfinished b hb).cut
  have hwrites : ∀ m ∈ (session fd t.log).messages, records.Writes id m :=
    fun m hm => (hrecord m hm).writes
  rw [hreceived, ← List.flatMap_id, Framing.Cutter.frames_flatMap hwrites, hrest, List.append_nil]

/-! A run to look at: a connection is opened, and the header of its first
record comes in two pieces, the second one with a part of the body. -/

def firstPiece : Call :=
  .handler { ready := .entry 0 false, accepted := some 7, header := .data [1, 4, 0, 1, 0] }

def secondPiece : Call :=
  .handler { ready := .entry 2 false, header := .data [2, 0, 0], body := .data [9] }

def listened : Transceiver :=
  (secondPiece.run slowWorld (firstPiece.run slowWorld (init (fun _ => 0) 0 3)).1).1

theorem reach_listened :
    Machine.Reach (callStep slowWorld) (FreshAccept slowWorld) (init (fun _ => 0) 0 3)
      [(firstPiece, .ok ()), (secondPiece, .ok ())] listened := by
  have hfirst : callStep slowWorld (init (fun _ => 0) 0 3) firstPiece
      = some ((firstPiece.run slowWorld (init (fun _ => 0) 0 3)).1, [(firstPiece, .ok ())]) := by
    have hends : (firstPiece.run slowWorld (init (fun _ => 0) 0 3)).2 = .ok () := by decide +kernel
    unfold callStep
    rw [hends]
  have hsecond : callStep slowWorld (firstPiece.run slowWorld (init (fun _ => 0) 0 3)).1 secondPiece
      = some (listened, [(secondPiece, .ok ())]) := by
    have hends : (secondPiece.run slowWorld
        (firstPiece.run slowWorld (init (fun _ => 0) 0 3)).1).2 = .ok () := by decide +kernel
    unfold callStep
    rw [hends]
    rfl
  refine (Machine.Reach.init.step ?_ hfirst).step ?_ hsecond
  · intro p new hp hnew
    cases hp
    cases hnew
    decide +kernel
  · intro p new hp hnew
    cases hp
    cases hnew

theorem reassembled_listened :
    (∀ fd, records.frames (session fd listened.log).received
        = ((session fd listened.log).messages, (listened.fdBuffers fd).elim [] FdBuffer.pending))
      ∧ ∀ fd id message, .message fd id message ∈ listened.log →
        id = ⟨(Header.ofBytes message).getRequestId, UInt16.ofNat fd⟩ :=
  reassembled (by decide) reach_listened

/-! ## The end of a stream -/

theorem store_nil (m : Nat → UInt8) (n : Nat) : Memory.store m n [] = m := by
  funext i
  simp [Memory.store]

/-- What is polled once is not polled any more when it is erased. -/
theorem not_mem_eraseIdx {fds : List Nat} {index fd : Nat} (h : fds.Nodup)
    (hfd : fds[index]? = some fd) : fd ∉ fds.eraseIdx index := by
  intro hmem
  obtain ⟨i, hne, hi⟩ := List.mem_eraseIdx_iff_getElem?.mp hmem
  have hlt := (List.getElem?_eq_some_iff.mp hi).1
  exact hne ((List.getElem?_inj hlt h).mp (hi.trans hfd.symm))

/-- A `poll` that finds the end of the stream of a connection. -/
def endOfStream (index : Nat) : Poll where
  ready := .entry index false
  header := .data []
  body := .data []

/-- The descriptor is erased between two records and in a header; in the
body of a record nothing changes. -/
theorem poll_endOfStream (hfds : socket ≠ wakeUpFdIn)
    (h : Machine.Reach (callStep w) (FreshAccept w) (init data socket wakeUpFdIn) hist t)
    {index fd : Nat} (transmitEmpty : Bool) (hfd : t.pollFds[index]? = some fd)
    (hsocket : fd ≠ t.socket) (hwake : fd ≠ t.wakeUpFdIn) :
    (fd ∈ (t.poll transmitEmpty (endOfStream index)).1.pollFds
        ↔ ((t.fdBuffers fd).bind FdBuffer.data).isSome)
      ∧ (fd ∈ (t.poll transmitEmpty (endOfStream index)).1.pollFds →
        t.poll transmitEmpty (endOfStream index) = (t.record (.received fd []), .ok transmitEmpty)) := by
  have hreceiving := receiving_of_run hfds h
  have hpoll : t.poll transmitEmpty (endOfStream index)
      = t.receive fd (some index) transmitEmpty (.data []) (.data []) := by
    unfold Transceiver.poll endOfStream
    dsimp only
    rw [hfd]
    simp [hsocket, hwake]
  rw [hpoll]
  unfold Transceiver.receive
  dsimp only
  cases hdata : (t.fdBuffer fd).data with
  | none =>
      have hnone : ((t.fdBuffers fd).bind FdBuffer.data).isSome = false := by
        unfold fdBuffer at hdata
        cases hb : t.fdBuffers fd with
        | none => rfl
        | some b =>
            rw [hb, Option.getD_some] at hdata
            rw [Option.bind_some, hdata]
            rfl
      have hgone := not_mem_eraseIdx hreceiving.nodup hfd
      simp only [List.take_nil, if_true, Transceiver.erasePollFd, setFdBuffer, record, hfd, hnone]
      exact ⟨⟨fun hmem => absurd hmem hgone, fun hfalse => by cases hfalse⟩,
        fun hmem => absurd hmem hgone⟩
  | some d =>
      obtain ⟨b, hb⟩ : ∃ b, t.fdBuffers fd = some b := by
        cases hb : t.fdBuffers fd with
        | none => rw [fdBuffer, hb] at hdata; cases hdata
        | some b => exact ⟨b, rfl⟩
      have hbuffer : t.fdBuffer fd = b := by rw [fdBuffer, hb, Option.getD_some]
      rw [hbuffer] at hdata ⊢
      obtain ⟨hsize, hlt, -⟩ := ((hreceiving.fits fd).unfinished b hb).body d hdata
      rw [recordSize_load d hsize] at hlt
      have hneeded : (headerOf d).getContentLength + (headerOf d).getPaddingLength + Header.size
          - b.size ≠ 0 := by omega
      have hsame : ({ b with size := b.size + 0, data := some d } : FdBuffer) = b := by
        rw [← hdata]
        rfl
      unfold Transceiver.receiveBody
      dsimp only
      rw [if_neg hneeded]
      simp only [List.take_nil, List.length_nil, store_nil, if_neg (Ne.symm hneeded), record,
        setFdBuffer]
      rw [hsame, ← hb, Function.update_eq_self, hb, Option.bind_some, hdata]
      exact ⟨⟨fun _ => rfl, fun _ => List.mem_of_getElem? hfd⟩, fun _ => rfl⟩

theorem transmit_eq_ok {t' : Transceiver} {transmitEmpty : Bool}
    (h : transmit w t = (t', .ok transmitEmpty)) : transmitEmpty = t'.buffer.empty := by
  unfold transmit at h
  generalize turns w t.buffer.frames.length t = r at h
  obtain ⟨t₁, e | u⟩ := r
  · cases h
  · cases h
    rfl

/-- What `transmit` leaves is reached by a call of `handler` that finds nothing. -/
theorem reach_transmit (h : Machine.Reach (callStep w) (FreshAccept w) (init data socket wakeUpFdIn) hist t)
    {t' : Transceiver} {transmitEmpty : Bool} (htransmit : transmit w t = (t', .ok transmitEmpty)) :
    ∃ hist', Machine.Reach (callStep w) (FreshAccept w) (init data socket wakeUpFdIn) hist' t' := by
  have hrun : (Call.handler { ready := .nothing }).run w t = (t', .ok ()) := by
    unfold Call.run handler
    rw [htransmit]
    rfl
  have hstep : callStep w t (.handler { ready := .nothing })
      = some (t', [(.handler { ready := .nothing }, .ok ())]) := by
    unfold callStep
    rw [hrun]
  refine ⟨_, h.step ?_ hstep⟩
  intro p new hp hnew
  cases hp
  cases hnew

/-- The end of a stream is seen between two records and in a header only. In
the body of a record the connection stays as it is, so that the same is
found again by every later call, and `handler` returns whether nothing is
left to be sent. -/
theorem polled_after_endOfStream (hfds : socket ≠ wakeUpFdIn)
    (h : Machine.Reach (callStep w) (FreshAccept w) (init data socket wakeUpFdIn) hist t)
    {t' : Transceiver} {transmitEmpty : Bool} (htransmit : transmit w t = (t', .ok transmitEmpty))
    {index fd : Nat} (hfd : t'.pollFds[index]? = some fd) (hsocket : fd ≠ t'.socket)
    (hwake : fd ≠ t'.wakeUpFdIn) :
    (fd ∈ (handler w (endOfStream index) t).1.pollFds
        ↔ ((t'.fdBuffers fd).bind FdBuffer.data).isSome)
      ∧ (fd ∈ (handler w (endOfStream index) t).1.pollFds →
        (handler w (endOfStream index) t).1.pollFds = t'.pollFds
          ∧ (handler w (endOfStream index) t).1.fdBuffers = t'.fdBuffers
          ∧ (handler w (endOfStream index) t).2 = .ok (handler w (endOfStream index) t).1.buffer.empty) := by
  obtain ⟨hist', hreach⟩ := reach_transmit h htransmit
  have hhandler : handler w (endOfStream index) t = t'.poll transmitEmpty (endOfStream index) := by
    unfold handler
    rw [htransmit]
  have hempty : transmitEmpty = t'.buffer.empty := transmit_eq_ok htransmit
  obtain ⟨hpolled, hsame⟩ := poll_endOfStream hfds hreach transmitEmpty hfd hsocket hwake
  rw [hhandler]
  refine ⟨hpolled, fun hmem => ?_⟩
  rw [hsame hmem, hempty]
  exact ⟨rfl, rfl, rfl⟩

theorem transmit_listened : transmit slowWorld listened = (listened, .ok true) := by
  have hframes : listened.buffer.frames.length = 0 := by decide +kernel
  have hempty : listened.buffer.empty = true := by decide +kernel
  unfold transmit
  rw [hframes]
  dsimp only [turns]
  rw [hempty]
  rfl

theorem polled_after_endOfStream_listened :
    ((listened.fdBuffers 7).bind FdBuffer.data).isSome
      ∧ (7 ∈ (handler slowWorld (endOfStream 2) listened).1.pollFds
          ↔ ((listened.fdBuffers 7).bind FdBuffer.data).isSome)
      ∧ (7 ∈ (handler slowWorld (endOfStream 2) listened).1.pollFds →
        (handler slowWorld (endOfStream 2) listened).1.pollFds = listened.pollFds
          ∧ (handler slowWorld (endOfStream 2) listened).1.fdBuffers = listened.fdBuffers
          ∧ (handler slowWorld (endOfStream 2) listened).2
            = .ok (handler slowWorld (endOfStream 2) listened).1.buffer.empty) :=
  ⟨by decide +kernel, polled_after_endOfStream (by decide) reach_listened transmit_listened
    (by decide +kernel) (by decide +kernel) (by decide +kernel)⟩

/-! ## The listening socket -/

/-- Nothing new is polled, and no connection opened. -/
structure Shrinks (t t' : Transceiver) : Prop where
  socket : t'.socket = t.socket
  pollFds : ∀ fd ∈ t'.pollFds, fd ∈ t.pollFds
  log : ∃ es, t'.log = t.log ++ es ∧ ∀ fd, .opened fd ∉ es

theorem Shrinks.refl (t : Transceiver) : Shrinks t t :=
  ⟨rfl, fun _ h => h, [], (List.append_nil _).symm, by simp⟩

theorem Shrinks.trans {t'' : Transceiver} (h : Shrinks t t') (h' : Shrinks t' t'') :
    Shrinks t t'' := by
  obtain ⟨es, hlog, hes⟩ := h.log
  obtain ⟨es', hlog', hes'⟩ := h'.log
  refine ⟨h'.socket.trans h.socket, fun fd hfd => h.pollFds fd (h'.pollFds fd hfd), es ++ es', ?_,
    fun fd hm => ?_⟩
  · rw [hlog', hlog, List.append_assoc]
  · rcases List.mem_append.mp hm with hm | hm
    · exact hes fd hm
    · exact hes' fd hm

theorem Shrinks.send (h : Send t t') : Shrinks t t' := by
  cases h with
  | quiet es hpollFds hfdBuffers hsocket hlog hes =>
      exact ⟨hsocket, fun fd hfd => hpollFds ▸ hfd, es, hlog,
        fun fd hm => absurd rfl (hes _ hm).not_opened⟩
  | freeFd fd =>
      unfold freeFd
      split
      · exact ⟨rfl, fun _ => List.mem_of_mem_erase, _, rfl, by simp⟩
      · exact .refl t

theorem Shrinks.sends (h : Sends t t') : Shrinks t t' := by
  induction h with
  | refl => exact .refl t
  | tail _ hsend ih => exact ih.trans (.send hsend)

/-- Without the listening socket nothing is accepted. -/
theorem Shrinks.recv (h : Recv t t') (hdeaf : t.socket ∉ t.pollFds) : Shrinks t t' := by
  cases h with
  | received fd got => exact ⟨rfl, fun _ h => h, _, rfl, by simp⟩
  | message fd id message => exact ⟨rfl, fun _ h => h, _, rfl, by simp⟩
  | setFdBuffer fd b => exact ⟨rfl, fun _ h => h, [], (List.append_nil _).symm, by simp⟩
  | accept fd hsocket => exact absurd hsocket hdeaf
  | erasePollFd pollFd =>
      unfold Transceiver.erasePollFd
      split
      · exact .refl t
      · split
        · exact .refl t
        · exact ⟨rfl, fun _ => List.mem_of_mem_eraseIdx, _, rfl, by simp⟩

theorem Shrinks.deaf (h : Shrinks t t') (hdeaf : t.socket ∉ t.pollFds) :
    t'.socket ∉ t'.pollFds :=
  fun hm => hdeaf (h.socket ▸ h.pollFds _ hm)

theorem Shrinks.recvs (h : Recvs t t') (hdeaf : t.socket ∉ t.pollFds) : Shrinks t t' := by
  induction h with
  | refl => exact .refl t
  | tail _ hrecv ih => exact ih.trans (.recv hrecv (ih.deaf hdeaf))

theorem Shrinks.handler (p : Poll) (hdeaf : t.socket ∉ t.pollFds) :
    Shrinks t (Transceiver.handler w p t).1 := by
  have hsends := Shrinks.sends (transmit_sends w t)
  unfold Transceiver.handler
  generalize transmit w t = r at hsends ⊢
  obtain ⟨t', _ | transmitEmpty⟩ := r
  · exact hsends
  · exact hsends.trans (.recvs (poll_recvs ..) (hsends.deaf hdeaf))

theorem Shrinks.run {t₀ : Transceiver} (h : Runs w t₀ hist t) (hdeaf : t₀.socket ∉ t₀.pollFds) :
    Shrinks t₀ t := by
  refine h.invariant (fun _ t => Shrinks t₀ t) (.refl t₀) fun {_ _ t _ c} hshrinks _ hstep => ?_
  obtain ⟨rfl, -⟩ := callStep_eq_some hstep
  cases c with
  | handler p => exact hshrinks.trans (.handler p (hshrinks.deaf hdeaf))
  | write id stream s => exact hshrinks.trans (.sends (Call.run_sends w t nofun))
  | endRequest id status killCon => exact hshrinks.trans (.sends (Call.run_sends w t nofun))
  | localHandler id message => exact hshrinks.trans (.sends (Call.run_sends w t nofun))

/-- A `poll` that finds a client which connects and is gone at once. -/
def goneAtOnce (index new : Nat) : Poll where
  ready := .entry index false
  accepted := some new
  header := .data []

/-- One client that is gone at once is enough: what `handler` does is
undefined, or it erases the listening socket in the place of the client and
accepts no connection any more. -/
theorem deaf_after_goneAtOnce (hfds : socket ≠ wakeUpFdIn)
    (h : Machine.Reach (callStep w) (FreshAccept w) (init data socket wakeUpFdIn) hist t)
    {index new : Nat} {transmitEmpty : Bool} (hends : (transmit w t).2 = .ok transmitEmpty)
    (hindex : (transmit w t).1.pollFds[index]? = some (transmit w t).1.socket)
    (hnew : new ∉ (transmit w t).1.pollFds) :
    (handler w (goneAtOnce index new) t).2 = .error .undefined
      ∨ ∀ hist' t', Runs w (handler w (goneAtOnce index new) t).1 hist' t' →
        ∃ es, t'.log = (handler w (goneAtOnce index new) t).1.log ++ es ∧ ∀ fd, .opened fd ∉ es := by
  have hreceiving := (receiving_of_run hfds h).sends (transmit_sends w t)
  have hhandler : handler w (goneAtOnce index new) t
      = (transmit w t).1.poll transmitEmpty (goneAtOnce index new) := by
    unfold handler
    generalize transmit w t = r at hends ⊢
    obtain ⟨t', r⟩ := r
    dsimp only at hends
    rw [hends]
  rw [hhandler]
  generalize (transmit w t).1 = t at hreceiving hindex hnew ⊢
  have hempty : (t.fdBuffer new).data = none := by
    have hnone : t.fdBuffers new = none := by
      by_contra hsome
      exact hnew (hreceiving.polled new hsome)
    rw [fdBuffer, hnone, Option.getD_none]
  have hnewempty : ((t.accept new).fdBuffer new).data = none := by
    rw [fdBuffer, Transceiver.accept]
    dsimp only
    rw [Function.update_self, Option.getD_some]
    exact hempty
  have hpoll : t.poll transmitEmpty (goneAtOnce index new)
      = (t.accept new).receive new
        (if t.pollFds.length = t.pollCapacity then none else some index) transmitEmpty (.data [])
        .again := by
    unfold Transceiver.poll goneAtOnce
    dsimp only
    rw [hindex]
    simp
  rw [hpoll]
  unfold Transceiver.receive
  dsimp only
  rw [hnewempty]
  simp only [List.take_nil, if_true]
  split
  · exact .inl rfl
  · refine .inr fun hist' t' hrun => (Shrinks.run hrun ?_).log
    have hlt : index < t.pollFds.length := (List.getElem?_eq_some_iff.mp hindex).1
    have hat : (t.pollFds ++ [new])[index]? = some t.socket := by
      rw [List.getElem?_append_left hlt, hindex]
    simp only [Transceiver.erasePollFd, setFdBuffer, record, Transceiver.accept, hat]
    exact not_mem_eraseIdx (hreceiving.accept hnew).nodup hat

theorem deaf_after_goneAtOnce_listened :
    (handler slowWorld (goneAtOnce 0 8) listened).2 = .error .undefined
      ∨ ∀ hist' t', Runs slowWorld (handler slowWorld (goneAtOnce 0 8) listened).1 hist' t' →
        ∃ es, t'.log = (handler slowWorld (goneAtOnce 0 8) listened).1.log ++ es
          ∧ ∀ fd, .opened fd ∉ es :=
  deaf_after_goneAtOnce (by decide) reach_listened
    (show (transmit slowWorld listened).2 = .ok true by decide +kernel) (by decide +kernel)
    (by decide +kernel)

end Run

end Transceiver

end Simurga
