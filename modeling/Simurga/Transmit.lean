import Simurga.Transceiver
import Simurga.Lib.Machine
import Mathlib.Logic.Relation

/-!
# What goes out

The bytes secured in the transmit buffer go out in the order they came,
each once, to the connection they are for, whatever the `write` calls
answer: what was taken so far is the beginning of what was secured, and the
outbox is the rest (`Ledger`). A connection is closed by the sending side
behind EPIPE or EBADF, or when the last byte of a frame that says so has
been taken (`Closes`).

The exception is EAGAIN, which the sockets of the program do not give: its
-1 goes to `freeRead` as a count of bytes.
-/

namespace Simurga

open Protocol

/-! ## Parcels as a stream -/

namespace Outbox

/-- The bytes with their descriptors, in order. -/
def stream (ps : List Parcel) : List (UInt16 × UInt8) :=
  ps.flatMap fun p => p.data.map (Prod.mk p.id.fd)

/-- What is left of parcels when `n` bytes have gone. -/
def drop : Nat → List Parcel → List Parcel
  | _, [] => []
  | n, p :: ps =>
      if p.data.length ≤ n then drop (n - p.data.length) ps
      else { p with data := p.data.drop n } :: ps

variable {p : Parcel} {ps qs : List Parcel} {n k : Nat}

@[simp] theorem stream_nil : stream [] = [] := rfl

theorem stream_cons (p : Parcel) (ps : List Parcel) :
    stream (p :: ps) = p.data.map (Prod.mk p.id.fd) ++ stream ps := List.flatMap_cons

theorem stream_append (ps qs : List Parcel) : stream (ps ++ qs) = stream ps ++ stream qs :=
  List.flatMap_append

theorem drop_zero (h : ∀ p ∈ ps, p.data ≠ []) : drop 0 ps = ps := by
  cases ps with
  | nil => rfl
  | cons p ps =>
      have := List.length_pos_of_ne_nil (h p (List.mem_cons_self ..))
      rw [drop, if_neg (by omega), List.drop_zero]

theorem stream_drop (n : Nat) (ps : List Parcel) : stream (drop n ps) = (stream ps).drop n := by
  induction ps generalizing n with
  | nil => simp [drop]
  | cons p ps ih =>
      rw [drop]
      split
      · rename_i hle
        have hgone : (p.data.map (Prod.mk p.id.fd)).drop n = [] :=
          List.drop_of_length_le (by rw [List.length_map]; exact hle)
        rw [ih, stream_cons, List.drop_append, hgone, List.length_map, List.nil_append]
      · rw [stream_cons, stream_cons, List.map_drop, List.drop_append_of_le_length
          (by rw [List.length_map]; omega)]

/-- Bytes of the first parcel go after others that have gone. -/
theorem advance_drop (h : ∀ p ∈ ps, p.data ≠ []) (hp : (drop n ps).head? = some p)
    (hk : k ≤ p.data.length) : advance k (drop n ps) = drop (n + k) ps := by
  induction ps generalizing n with
  | nil => simp [drop] at hp
  | cons q ps ih =>
      have hps : ∀ p ∈ ps, p.data ≠ [] := fun p hp => h p (List.mem_cons_of_mem _ hp)
      rw [drop] at hp ⊢
      rw [drop]
      split at hp
      · rename_i hle
        rw [if_pos hle, if_pos (by omega), ih hps hp,
          show n + k - q.data.length = n - q.data.length + k from by omega]
      · rename_i hgt
        rw [List.head?_cons, Option.some.injEq] at hp
        subst hp
        rw [List.length_drop] at hk
        rw [if_neg hgt, advance, List.length_drop]
        rcases Nat.lt_or_ge (n + k) q.data.length with hlt | hge
        · rw [if_neg (by omega), if_neg (by omega), List.drop_drop]
        · rw [if_pos (by omega), if_pos hge, show n + k - q.data.length = 0 from by omega,
            drop_zero hps]

/-- More parcels behind. -/
theorem drop_append (h : ∀ p ∈ qs, p.data ≠ []) (hn : n ≤ (stream ps).length) :
    drop n (ps ++ qs) = drop n ps ++ qs := by
  induction ps generalizing n with
  | nil =>
      rw [stream_nil, List.length_nil, Nat.le_zero] at hn
      rw [hn, List.nil_append, drop_zero h]
      rfl
  | cons p ps ih =>
      rw [stream_cons, List.length_append, List.length_map] at hn
      rw [List.cons_append, drop, drop]
      split
      · rw [ih (by omega)]
      · rw [List.cons_append]

/-- Where the stream was cut: behind parcels that have gone. -/
theorem exists_of_drop (h : drop n ps = p :: qs) :
    ∃ done q, ps = done ++ q :: qs ∧ q.id = p.id ∧ q.closeFd = p.closeFd
      ∧ (stream (done ++ [q])).length = n + p.data.length := by
  induction ps generalizing n with
  | nil => cases h
  | cons q ps ih =>
      rw [drop] at h
      split at h
      · rename_i hle
        obtain ⟨done, r, rfl, hid, hclose, hlen⟩ := ih h
        refine ⟨q :: done, r, rfl, hid, hclose, ?_⟩
        rw [List.cons_append, stream_cons, List.length_append, List.length_map, hlen]
        omega
      · rename_i hgt
        rw [List.cons.injEq] at h
        obtain ⟨rfl, rfl⟩ := h
        refine ⟨[], q, rfl, rfl, rfl, ?_⟩
        rw [List.nil_append, stream_cons, stream_nil, List.append_nil, List.length_map,
          List.length_drop]
        omega

end Outbox

namespace Transceiver

/-! ## The ledger -/

/-- The parcels secured so far. -/
def secured (log : List Event) : List Parcel :=
  log.filterMap fun
    | .secured parcel => some parcel
    | _ => none

/-- The bytes taken so far by `write`, or thrown away behind an error. -/
def taken (log : List Event) : List (UInt16 × UInt8) :=
  log.flatMap fun
    | .wrote fd data => data.map (Prod.mk fd)
    | .refused fd data => data.map (Prod.mk fd)
    | _ => []

/-- What was taken is the beginning of what was secured, and the outbox is
the rest. -/
structure Ledger (t : Transceiver) : Prop where
  sound : t.buffer.Sound
  nonempty : ∀ p ∈ secured t.log, p.data ≠ []
  taken : taken t.log <+: Outbox.stream (secured t.log)
  outbox : t.buffer.outbox = Outbox.drop (Transceiver.taken t.log).length (secured t.log)

variable {t t' : Transceiver} {w : World} {log es : List Event} {p : Parcel} {ps : List Parcel}

theorem secured_append (log es : List Event) : secured (log ++ es) = secured log ++ secured es :=
  List.filterMap_append

theorem taken_append (log es : List Event) : taken (log ++ es) = taken log ++ taken es :=
  List.flatMap_append

/-- Nothing is lost and nothing comes twice: the bytes taken and the ones
in the outbox are the ones secured. -/
theorem Ledger.stream_secured (h : t.Ledger) :
    Transceiver.taken t.log ++ Outbox.stream t.buffer.outbox = Outbox.stream (secured t.log) := by
  rw [h.outbox, Outbox.stream_drop]
  obtain ⟨rest, hrest⟩ := h.taken
  rw [← hrest, List.drop_left]

theorem Ledger.init (data : Nat → UInt8) (socket wakeUpFdIn : Nat) :
    (init data socket wakeUpFdIn).Ledger where
  sound := .init data
  nonempty := by simp [secured, Transceiver.init]
  taken := List.nil_prefix
  outbox := rfl

/-- Events of the other side do not matter. -/
theorem Ledger.of_log (h : t.Ledger) (hbuffer : t'.buffer = t.buffer) (hlog : t'.log = t.log ++ es)
    (hsecured : secured es = []) (htaken : Transceiver.taken es = []) : t'.Ledger := by
  have hs : secured t'.log = secured t.log := by
    rw [hlog, secured_append, hsecured, List.append_nil]
  have ht : Transceiver.taken t'.log = Transceiver.taken t.log := by
    rw [hlog, taken_append, htaken, List.append_nil]
  refine ⟨hbuffer ▸ h.sound, hs ▸ h.nonempty, ?_, ?_⟩
  · rw [hs, ht]
    exact h.taken
  · rw [hbuffer, hs, ht]
    exact h.outbox

/-- `freeFd` closes the descriptor if it is polled. -/
theorem freeFd_cases (t : Transceiver) (fd : Nat) :
    (t.freeFd fd).buffer = t.buffer
      ∧ ((t.freeFd fd).log = t.log ∨ (t.freeFd fd).log = t.log ++ [.closed fd]) := by
  unfold freeFd
  split
  · exact ⟨rfl, .inr rfl⟩
  · exact ⟨rfl, .inl rfl⟩

theorem Ledger.freeFd (h : t.Ledger) (fd : Nat) : (t.freeFd fd).Ledger := by
  obtain ⟨hbuffer, hlog | hlog⟩ := freeFd_cases t fd
  · exact h.of_log hbuffer (hlog.trans (List.append_nil _).symm) rfl rfl
  · exact h.of_log hbuffer hlog rfl rfl

/-- Bytes of the first parcel have been taken. -/
theorem Ledger.advance (h : t.Ledger) (hp : t.buffer.outbox = p :: ps) {k : Nat}
    (hk : k ≤ p.data.length) (hsound : t'.buffer.Sound)
    (houtbox : t'.buffer.outbox = Outbox.advance k t.buffer.outbox)
    (hsecured : secured t'.log = secured t.log)
    (htaken : Transceiver.taken t'.log
      = Transceiver.taken t.log ++ (p.data.take k).map (Prod.mk p.id.fd)) : t'.Ledger := by
  refine ⟨hsound, hsecured ▸ h.nonempty, ?_, ?_⟩
  · rw [htaken, hsecured, ← h.stream_secured, hp, Outbox.stream_cons]
    refine (List.prefix_append_right_inj _).mpr (List.IsPrefix.trans ?_ (List.prefix_append _ _))
    rw [List.map_take]
    exact List.take_prefix ..
  · have hhead : (Outbox.drop (Transceiver.taken t.log).length (secured t.log)).head? = some p := by
      rw [← h.outbox, hp]
      rfl
    rw [houtbox, h.outbox, Outbox.advance_drop h.nonempty hhead hk, hsecured, htaken,
      List.length_append, List.length_map, List.length_take_of_le hk]

/-! ## One turn -/

/-- Freeing a part of the first parcel; behind the whole of it the
connection is closed if the parcel says so, and the loop goes on. -/
theorem freeRead_eq (h : t.buffer.Sound) (hp : t.buffer.outbox = p :: ps) {k : Nat}
    (hk : k ≤ p.data.length) :
    ∃ b, b.Sound ∧ b.outbox = Outbox.advance k t.buffer.outbox
      ∧ t.freeRead k p.data.length
        = (if k = p.data.length ∧ p.closeFd = true then
            Transceiver.freeFd { t with buffer := b } p.id.fd.toNat
          else { t with buffer := b }, if k = p.data.length then none else some (.ok ())) := by
  obtain ⟨b, hfree, hsound, houtbox⟩ := Buffer.freeRead_outbox h hp hk
  refine ⟨b, hsound, houtbox, ?_⟩
  unfold freeRead
  rw [hfree]
  dsimp only
  simp only [Nat.cast_inj]
  split <;> rfl

/-- What a turn of `transmit` does. -/
inductive Turned (w : World) (t : Transceiver) :
    Transceiver × Option (Except Failure Unit) → Prop where
  /-- Nothing is left. -/
  | idle (h : t.buffer.outbox = []) : Turned w t (t, some (.ok ()))
  /-- `k` bytes of the first parcel were taken. -/
  | wrote {p : Parcel} {ps : List Parcel} {b : Buffer} {k : Nat} (h : t.buffer.outbox = p :: ps)
      (hk : k ≤ p.data.length) (hb : b.Sound)
      (houtbox : b.outbox = Outbox.advance k t.buffer.outbox)
      (hanswer : ∃ n, w.written t.calls = .accepted n ∧ k = min n p.data.length) :
      Turned w t (if k = p.data.length ∧ p.closeFd = true then
          freeFd { t with calls := t.calls + 1, buffer := b
                          log := t.log ++ [.wrote p.id.fd (p.data.take k)] } p.id.fd.toNat
        else { t with calls := t.calls + 1, buffer := b
                      log := t.log ++ [.wrote p.id.fd (p.data.take k)] },
        if k = p.data.length then none else some (.ok ()))
  /-- The connection is gone, and with it the first parcel. -/
  | refused {p : Parcel} {ps : List Parcel} {b : Buffer} {t₁ : Transceiver}
      (h : t.buffer.outbox = p :: ps) (hb : b.Sound)
      (houtbox : b.outbox = Outbox.advance p.data.length t.buffer.outbox)
      (hanswer : w.written t.calls = .gone)
      (ht₁ : t₁ = freeFd { t with calls := t.calls + 1, log := t.log ++ [.refused p.id.fd p.data] }
        p.id.fd.toNat) :
      Turned w t (if p.closeFd = true then
          freeFd { t₁ with buffer := b } p.id.fd.toNat else { t₁ with buffer := b }, none)
  | failed (hanswer : w.written t.calls = .failed) :
      Turned w t ({ t with calls := t.calls + 1 }, some (.error .socketWrite))

/-- Unless the answer is EAGAIN. -/
theorem turned (h : t.buffer.Sound) (hw : w.written t.calls ≠ .again) : Turned w t (t.turn w) := by
  unfold turn
  rw [Buffer.requestRead_eq h]
  cases hp : t.buffer.outbox with
  | nil => exact .idle hp
  | cons p ps =>
      have hpos := h.outbox_pos (p := p) (by rw [hp]; rfl)
      simp only [List.head?_cons, Option.map_some, if_neg hpos]
      cases hanswer : w.written t.calls with
      | accepted n =>
          have hk : min n p.data.length ≤ p.data.length := Nat.min_le_right ..
          have htake : p.data.take n = p.data.take (min n p.data.length) := by
            rw [← List.take_take, List.take_length]
          obtain ⟨b, hb, houtbox, hfree⟩ := freeRead_eq
            (t := record { t with calls := t.calls + 1 }
              (.wrote p.id.fd (p.data.take (min n p.data.length)))) h hp hk
          dsimp only
          rw [htake, hfree]
          exact .wrote hp hk hb houtbox ⟨n, hanswer, rfl⟩
      | gone =>
          generalize ht₁ : freeFd (record { t with calls := t.calls + 1 }
            (.refused p.id.fd p.data)) p.id.fd.toNat = t₁
          have hbuffer : t₁.buffer = t.buffer := ht₁ ▸ (freeFd_cases _ _).1
          obtain ⟨b, hb, houtbox, hfree⟩ := freeRead_eq (t := t₁) (by rw [hbuffer]; exact h)
            (by rw [hbuffer]; exact hp) (Nat.le_refl _)
          rw [hbuffer] at houtbox
          dsimp only
          rw [hfree, if_pos rfl]
          simp only [true_and]
          exact .refused hp hb houtbox hanswer ht₁.symm
      | again => exact absurd hanswer hw
      | failed => exact .failed hanswer

/-- A turn keeps the ledger. -/
theorem Ledger.turn (h : t.Ledger) (hw : w.written t.calls ≠ .again) : (t.turn w).1.Ledger := by
  have hturn := turned h.sound hw
  generalize t.turn w = r at hturn
  cases hturn with
  | idle _ => exact h
  | failed _ => exact h.of_log rfl (List.append_nil _).symm rfl rfl
  | @wrote p ps b k hp hk hb houtbox hanswer =>
      have hnew : Ledger { t with calls := t.calls + 1, buffer := b
                                  log := t.log ++ [.wrote p.id.fd (p.data.take k)] } := by
        refine h.advance hp hk hb houtbox ?_ ?_
        · rw [secured_append]
          exact List.append_nil _
        · rw [taken_append]
          exact congrArg (_ ++ ·) (List.append_nil _)
      dsimp only
      split
      · exact hnew.freeFd _
      · exact hnew
  | @refused p ps b t₁ hp hb houtbox hanswer ht₁ =>
      obtain ⟨hbuffer, hlog⟩ := freeFd_cases
        { t with calls := t.calls + 1, log := t.log ++ [.refused p.id.fd p.data] } p.id.fd.toNat
      have hnew : Ledger { t₁ with buffer := b } := by
        have hfull : p.data.take p.data.length = p.data := List.take_length
        refine h.advance hp (Nat.le_refl _) hb houtbox ?_ ?_ <;> subst ht₁
        · rcases hlog with hlog | hlog <;> dsimp only <;> rw [hlog] <;>
            simp [secured]
        · rcases hlog with hlog | hlog <;> dsimp only <;> rw [hlog, hfull] <;>
            simp [Transceiver.taken]
      dsimp only
      split
      · exact hnew.freeFd _
      · exact hnew

/-! ## Closing a connection -/

/-- Why a connection is closed: it is gone, or the last byte has been taken
that it was to get. -/
def Closes (log : List Event) (fd : Nat) : Prop :=
  (∃ before fd' data, log = before ++ [.refused fd' data] ∧ fd'.toNat = fd)
    ∨ ∃ done p todo, secured log = done ++ p :: todo ∧ p.closeFd = true ∧ p.id.fd.toNat = fd
        ∧ Transceiver.taken log = Outbox.stream (done ++ [p])

/-- Events that close a connection only when it may be closed. -/
abbrev ClosesRight (log : List Event) : Prop :=
  Machine.Justified (fun before e => ∀ fd, e = .closed fd → Closes before fd) log

/-- With all of the first parcel the last byte of its frame has been taken. -/
theorem Ledger.closes (h : t.Ledger) (hp : t.buffer.outbox = p :: ps) (hclose : p.closeFd = true)
    (hsecured : secured log = secured t.log)
    (htaken : Transceiver.taken log
      = Transceiver.taken t.log ++ p.data.map (Prod.mk p.id.fd)) :
    Closes log p.id.fd.toNat := by
  have hstream := h.stream_secured
  rw [hp, Outbox.stream_cons, ← List.append_assoc, ← htaken] at hstream
  rw [h.outbox] at hp
  obtain ⟨done, q, hdone, hid, hq, hlen⟩ := Outbox.exists_of_drop hp
  refine .inr ⟨done, q, ps, hsecured.trans hdone, hq.trans hclose, by rw [hid], ?_⟩
  rw [hdone, show done ++ q :: ps = done ++ [q] ++ ps from by simp, Outbox.stream_append] at hstream
  refine List.append_inj_left hstream ?_
  rw [hlen, htaken, List.length_append, List.length_map]

theorem justified_of_no_close (hes : ∀ e ∈ es, ∀ fd, e ≠ .closed fd) (h : ClosesRight log) :
    ClosesRight (log ++ es) := by
  refine h.append fun pre e post hsplit fd he => ?_
  exact absurd he (hes e (by rw [hsplit]; exact List.mem_append_right _ (List.mem_cons_self ..)) fd)

theorem closesRight_concat {fd : Nat} (h : ClosesRight log) (hclose : Closes log fd) :
    ClosesRight (log ++ [.closed fd]) := by
  refine h.append fun pre e post hsplit fd' he => ?_
  cases pre with
  | nil =>
      rw [List.nil_append, List.cons.injEq] at hsplit
      obtain ⟨rfl, -⟩ := hsplit
      cases he
      rwa [List.append_nil]
  | cons d pre => simp at hsplit

theorem ClosesRight.freeFd {fd : Nat} (h : ClosesRight t.log) (hclose : Closes t.log fd) :
    ClosesRight (t.freeFd fd).log := by
  obtain ⟨-, hlog | hlog⟩ := freeFd_cases t fd
  · rw [hlog]
    exact h
  · rw [hlog]
    exact closesRight_concat h hclose

theorem Ledger.turn_closesRight (h : t.Ledger) (hw : w.written t.calls ≠ .again)
    (hlog : ClosesRight t.log) : ClosesRight (t.turn w).1.log := by
  have hturn := turned h.sound hw
  generalize t.turn w = r at hturn
  cases hturn with
  | idle _ => exact hlog
  | failed _ => exact hlog
  | @wrote p ps b k hp hk hb houtbox hanswer =>
      have hwrote : ClosesRight (t.log ++ [.wrote p.id.fd (p.data.take k)]) :=
        justified_of_no_close (by simp) hlog
      dsimp only
      split
      · rename_i hdone
        refine ClosesRight.freeFd hwrote (h.closes hp hdone.2 ?_ ?_)
        · rw [secured_append]
          exact List.append_nil _
        · rw [taken_append, hdone.1, List.take_length]
          exact congrArg (_ ++ ·) (List.append_nil _)
      · exact hwrote
  | @refused p ps b t₁ hp hb houtbox hanswer ht₁ =>
      have hrefused : ClosesRight (t.log ++ [.refused p.id.fd p.data]) :=
        justified_of_no_close (by simp) hlog
      have hgone : Closes (t.log ++ [.refused p.id.fd p.data]) p.id.fd.toNat :=
        .inl ⟨t.log, p.id.fd, p.data, rfl, rfl⟩
      have ht₁log : ClosesRight t₁.log := by
        rw [ht₁]
        exact ClosesRight.freeFd (t := { t with calls := t.calls + 1
                                                log := t.log ++ [.refused p.id.fd p.data] })
          hrefused hgone
      dsimp only
      split
      · rename_i hclose
        refine ClosesRight.freeFd (t := { t₁ with buffer := b }) ht₁log (h.closes hp hclose ?_ ?_) <;>
          dsimp only <;> subst ht₁ <;>
          rcases (freeFd_cases { t with calls := t.calls + 1
                                        log := t.log ++ [.refused p.id.fd p.data] }
            p.id.fd.toNat).2 with hlog | hlog <;> rw [hlog] <;>
          simp [secured, Transceiver.taken]
      · exact ht₁log

/-! ## Runs of the sending side -/

/-- What the functions of the program do to a transceiver, one thing at a
time: a turn of `transmit`, bytes put into a block, a block secured, and
anything on the receiving side. -/
inductive Step (w : World) (t : Transceiver) : Transceiver → Prop where
  | turn : Step w t (t.turn w).1
  | store (pos : Nat) (s : Bytes) : Step w t (t.store pos s)
  | secure (size : Nat) (id : FullId) (kill : Bool) (hpos : 0 < size)
      (hsize : t.buffer.writeIt.end_ + size ≤ Chunk.size) :
      Step w t
        { t.record (.secured { id, data := t.buffer.block 0 size, closeFd := kill }) with
          buffer := t.buffer.secureWrite (w.fresh t.calls) size id kill }
  | other {t' : Transceiver} (es : List Event) (hbuffer : t'.buffer = t.buffer)
      (hcalls : t'.calls = t.calls) (hlog : t'.log = t.log ++ es)
      (hes : ∀ e ∈ es, e.incoming = true) : Step w t t'

/-- Any number of steps. -/
abbrev Steps (w : World) : Transceiver → Transceiver → Prop := Relation.ReflTransGen (Step w)

/-- The sockets of the program block: no `write` ends in EAGAIN. -/
def NoAgain (w : World) : Prop := ∀ n, w.written n ≠ .again

theorem Ledger.step (h : t.Ledger) (hw : NoAgain w) (hstep : Step w t t') : t'.Ledger := by
  cases hstep with
  | turn => exact h.turn (hw _)
  | store pos s =>
      exact { sound := h.sound.store pos s, nonempty := h.nonempty, taken := h.taken
              outbox := Buffer.outbox_store.trans h.outbox }
  | secure size id kill hpos hsize =>
      have hs : secured (t.log ++ [.secured { id, data := t.buffer.block 0 size, closeFd := kill }])
          = secured t.log ++ [{ id, data := t.buffer.block 0 size, closeFd := kill }] :=
        secured_append ..
      have ht : Transceiver.taken
          (t.log ++ [.secured { id, data := t.buffer.block 0 size, closeFd := kill }])
          = Transceiver.taken t.log := (taken_append ..).trans (List.append_nil _)
      have hnew : ∀ p ∈ [({ id, data := t.buffer.block 0 size, closeFd := kill } : Parcel)],
          p.data ≠ [] := by
        intro p hp
        obtain rfl := List.mem_singleton.mp hp
        exact List.ne_nil_of_length_pos (by rw [Buffer.length_block]; exact hpos)
      refine ⟨h.sound.secureWrite hpos hsize, ?_, ?_, ?_⟩ <;> dsimp only [record]
      · rw [hs]
        intro p hp
        rcases List.mem_append.mp hp with hp | hp
        · exact h.nonempty p hp
        · exact hnew p hp
      · rw [hs, ht, Outbox.stream_append]
        exact h.taken.trans (List.prefix_append ..)
      · rw [hs, ht, Buffer.outbox_secureWrite h.sound, h.outbox,
          Outbox.drop_append hnew h.taken.length_le]
  | other es hbuffer hcalls hlog hes =>
      refine h.of_log hbuffer hlog ?_ ?_
      · refine List.filterMap_eq_nil_iff.mpr fun e he => ?_
        have hin := hes e he
        cases e with
        | secured p => cases hin
        | _ => rfl
      · refine List.flatMap_eq_nil_iff.mpr fun e he => ?_
        have hin := hes e he
        cases e with
        | wrote fd s => cases hin
        | refused fd s => cases hin
        | _ => rfl

theorem Ledger.steps (h : t.Ledger) (hw : NoAgain w) (hsteps : Steps w t t') : t'.Ledger := by
  induction hsteps with
  | refl => exact h
  | tail _ hstep ih => exact ih.step hw hstep

theorem Ledger.steps_closesRight (h : t.Ledger) (hw : NoAgain w) (hlog : ClosesRight t.log)
    (hsteps : Steps w t t') : ClosesRight t'.log := by
  induction hsteps with
  | refl => exact hlog
  | tail hbefore hstep ih =>
      have hledger := h.steps hw hbefore
      cases hstep with
      | turn => exact hledger.turn_closesRight (hw _) ih
      | store pos s => exact ih
      | secure size id kill hpos hsize => exact justified_of_no_close (by simp) ih
      | other es hbuffer hcalls heq hes =>
          rw [heq]
          refine justified_of_no_close (fun e he fd hclosed => ?_) ih
          have hin := hes e he
          rw [hclosed] at hin
          cases hin

/-! ## The functions as steps -/

theorem turns_steps (w : World) (n : Nat) (t : Transceiver) : Steps w t (turns w n t).1 := by
  induction n generalizing t with
  | zero => exact .refl
  | succ n ih =>
      rw [turns]
      have hturn : Step w t (t.turn w).1 := .turn
      generalize t.turn w = r at hturn ⊢
      obtain ⟨t', _ | r⟩ := r
      · exact .head hturn (ih t')
      · exact .single hturn

theorem transmit_steps (w : World) (t : Transceiver) : Steps w t (transmit w t).1 :=
  turns_steps w _ t

theorem secureWrite_steps {size : Nat} (id : FullId) (kill : Bool) (hpos : 0 < size)
    (hsize : t.buffer.writeIt.end_ + size ≤ Chunk.size) :
    Steps w t (secureWrite w t size id kill).1 :=
  .head (.secure size id kill hpos hsize) (transmit_steps w _)

/-! ## How `transmit` ends -/

theorem secured_freeFd (t : Transceiver) (fd : Nat) :
    secured (t.freeFd fd).log = secured t.log := by
  obtain ⟨-, hlog | hlog⟩ := freeFd_cases t fd <;> rw [hlog]
  rw [secured_append]
  exact List.append_nil _

/-- A turn secures nothing, and it does not fail but for the socket. -/
theorem Turned.ends {r : Transceiver × Option (Except Failure Unit)} (h : Turned w t r) :
    secured r.1.log = secured t.log
      ∧ (r.2 = none ∨ r.2 = some (.ok ())
        ∨ r.2 = some (.error .socketWrite) ∧ w.written t.calls = .failed) := by
  have hwrote : ∀ e : Event, (∀ p, e ≠ .secured p) → secured (t.log ++ [e]) = secured t.log := by
    intro e he
    rw [secured_append]
    cases e with
    | secured p => exact absurd rfl (he p)
    | _ => exact List.append_nil _
  cases h with
  | idle _ => exact ⟨rfl, .inr (.inl rfl)⟩
  | failed hanswer => exact ⟨rfl, .inr (.inr ⟨rfl, hanswer⟩)⟩
  | wrote hp hk hb houtbox hanswer =>
      refine ⟨?_, ?_⟩
      · dsimp only
        split
        · exact (secured_freeFd _ _).trans (hwrote _ (by simp))
        · exact hwrote _ (by simp)
      · dsimp only
        split
        · exact .inl rfl
        · exact .inr (.inl rfl)
  | @refused p ps b t₁ hp hb houtbox hanswer ht₁ =>
      have ht : secured t₁.log = secured t.log := by
        rw [ht₁]
        exact (secured_freeFd _ _).trans (hwrote _ (by simp))
      refine ⟨?_, .inl rfl⟩
      dsimp only
      split
      · exact (secured_freeFd { t₁ with buffer := b } _).trans ht
      · exact ht

theorem Ledger.turns_ends (h : t.Ledger) (hw : NoAgain w) (n : Nat) :
    secured (turns w n t).1.log = secured t.log
      ∧ ((turns w n t).2 = .ok ()
        ∨ (turns w n t).2 = .error .socketWrite ∧ ∃ k, w.written k = .failed) := by
  induction n generalizing t with
  | zero => exact ⟨rfl, .inl rfl⟩
  | succ n ih =>
      obtain ⟨hsecured, hends⟩ := (turned h.sound (hw t.calls)).ends
      have hledger := h.turn (hw t.calls)
      rw [turns]
      generalize t.turn w = r at hsecured hends hledger ⊢
      obtain ⟨t', r⟩ := r
      rcases hends with hr | hr | ⟨hr, hfailed⟩ <;> subst hr
      · obtain ⟨hsecured', hends'⟩ := ih hledger
        exact ⟨hsecured'.trans hsecured, hends'⟩
      · exact ⟨hsecured, .inl rfl⟩
      · exact ⟨hsecured, .inr ⟨rfl, _, hfailed⟩⟩

/-- `transmit` returns whether the outbox is empty, or throws. -/
theorem Ledger.transmit_ends (h : t.Ledger) (hw : NoAgain w) :
    secured (transmit w t).1.log = secured t.log
      ∧ ((transmit w t).2 = .ok (decide ((transmit w t).1.buffer.outbox = []))
        ∨ (transmit w t).2 = .error .socketWrite ∧ ∃ k, w.written k = .failed) := by
  obtain ⟨hsecured, hends⟩ := h.turns_ends hw t.buffer.frames.length
  have hledger := h.steps hw (transmit_steps w t)
  refine ⟨hsecured, ?_⟩
  unfold transmit at hledger ⊢
  dsimp only at hledger ⊢
  rcases hends with hr | ⟨hr, hfailed⟩
  · left
    rw [hr]
    have hempty := Buffer.empty_iff hledger.sound
    refine congrArg Except.ok ?_
    rw [Bool.eq_iff_iff, decide_eq_true_iff]
    exact hempty
  · right
    rw [hr]
    exact ⟨rfl, hfailed⟩

theorem Ledger.secureWrite_ends (h : t.Ledger) (hw : NoAgain w) {size : Nat} (id : FullId)
    (kill : Bool) (hpos : 0 < size) (hsize : t.buffer.writeIt.end_ + size ≤ Chunk.size) :
    secured (secureWrite w t size id kill).1.log
        = secured t.log ++ [{ id, data := t.buffer.block 0 size, closeFd := kill }]
      ∧ ((secureWrite w t size id kill).2 = .ok ()
        ∨ (secureWrite w t size id kill).2 = .error .socketWrite ∧ ∃ k, w.written k = .failed) := by
  have hledger := h.step hw (.secure size id kill hpos hsize)
  obtain ⟨hsecured, hends⟩ := hledger.transmit_ends hw
  unfold secureWrite
  dsimp only
  refine ⟨hsecured.trans (secured_append ..), ?_⟩
  rcases hends with hr | ⟨hr, hfailed⟩
  · left
    rw [hr]
    rfl
  · right
    rw [hr]
    exact ⟨rfl, hfailed⟩

/-! ## The memory held -/

theorem length_stream {b : Buffer} (h : b.Sound) :
    (Outbox.stream b.outbox).length = (b.texts.map List.length).sum := by
  have hflat : b.texts.flatten.length = (b.frames.map Frame.size).sum := by
    rw [Buffer.length_texts_flatten, h.tiled.sum_eq]
  rw [← Buffer.length_texts_flatten, ← Buffer.length_parcels hflat, Outbox.stream,
    List.length_flatMap]
  exact congrArg List.sum (List.map_congr_left fun p _ => List.length_map _)

/-- The chunks behind the first one are full of bytes that are pending. -/
theorem full_le {b : Buffer} (h : b.Sound) :
    (b.full.length - 1) * (Chunk.size - minBlockSize) ≤ (Outbox.stream b.outbox).length := by
  rw [length_stream h, Buffer.spans_eq_cons]
  cases hfull : b.full with
  | nil => simp
  | cons c cs =>
      have hcs : ∀ n ∈ cs.map fun c => c.text.length, Chunk.size - minBlockSize ≤ n := by
        intro n hn
        obtain ⟨c', hc', rfl⟩ := List.mem_map.mp hn
        have := (h.full c' (hfull ▸ List.mem_cons_of_mem _ hc')).1
        rw [Chunk.text, Memory.length_load]
        omega
      have hsum := List.card_nsmul_le_sum _ _ hcs
      rw [List.length_map, smul_eq_mul] at hsum
      rw [List.cons_append, List.tail_cons, List.map_append, List.sum_cons, List.sum_append,
        List.length_cons, Nat.add_sub_cancel]
      omega

/-- A turn does nothing to the buffer but free what was sent. -/
theorem turn_buffer (w : World) (t : Transceiver) :
    (t.turn w).1.buffer = t.buffer
      ∨ ∃ sent closed, t.buffer.freeRead sent = some ((t.turn w).1.buffer, closed) := by
  have hfree : ∀ (t' : Transceiver) sent size, t'.buffer = t.buffer →
      (t'.freeRead sent size).1.buffer = t.buffer
        ∨ ∃ n closed, t.buffer.freeRead n = some ((t'.freeRead sent size).1.buffer, closed) := by
    intro t' sent size hbuffer
    unfold freeRead
    rw [hbuffer]
    cases hb : t.buffer.freeRead sent with
    | none => exact .inl hbuffer
    | some r =>
        obtain ⟨b, closed⟩ := r
        refine .inr ⟨sent, closed, hb.trans ?_⟩
        dsimp only
        cases closed with
        | none => rfl
        | some fd => rw [Option.elim_some, (freeFd_cases _ _).1]
  unfold turn
  split
  · exact .inl rfl
  · split
    · exact .inl rfl
    · dsimp only
      split
      · exact hfree _ _ _ rfl
      · exact hfree _ _ _ (freeFd_cases _ _).1
      · exact hfree _ _ _ rfl
      · exact .inl rfl

theorem Step.free (h : Step w t t') (hfree : t.buffer.free.length ≤ 1) :
    t'.buffer.free.length ≤ 1 := by
  cases h with
  | turn =>
      rcases turn_buffer w t with hbuffer | ⟨sent, closed, hbuffer⟩
      · rwa [hbuffer]
      · exact Buffer.freeRead_free hbuffer hfree
  | store pos s => exact hfree
  | other es hbuffer hcalls hlog hes => rwa [hbuffer]
  | secure size id kill hpos hsize =>
      dsimp only
      unfold Buffer.secureWrite
      dsimp only
      split
      · split
        · exact hfree
        · rename_i hcons
          rw [hcons, List.length_cons] at hfree
          dsimp only
          omega
      · exact hfree

theorem Steps.free (h : Steps w t t') (hfree : t.buffer.free.length ≤ 1) :
    t'.buffer.free.length ≤ 1 := by
  induction h with
  | refl => exact hfree
  | tail _ hstep ih => exact hstep.free ih

end Transceiver

end Simurga
