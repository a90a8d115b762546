import Simurga.Transmit

/-!
# Writing records

What the program writes to the transmit buffer: the records of
`FcgistreamSink::write` (`fcgistream.cpp`), the END_REQUEST record of
`complete` and `handler` (`request.cpp`), and the answers of
`ManagerPar::localHandler` (`manager.cpp`). A record is written over the
memory of a block, so that its reserved bytes and its padding are what the
memory held before.

Every record of a request is whole (`IsRecord`), a multiple of eight bytes
long, and fits its block; the contents of those of one `write` are the text
that was written, whatever room the buffer has.
-/

namespace Simurga

open Protocol Transceiver

/-! ## `FcgistreamSink` -/

namespace FcgistreamSink

/-- The size that `write` asks for with `n` bytes to go. -/
def wantedSize (n : Nat) : Nat :=
  let remainder := n % chunkSize
  let size := n + Header.size + (if remainder ≠ 0 then chunkSize - remainder else remainder)
  if 65535 < size then 65535 else size

/-- The size of the record in a block. -/
def recordSize (block : Nat) : Nat := block / chunkSize * chunkSize

/-- The content length of a record of this size with `n` bytes to go. -/
def contentLength (size n : Nat) : UInt16 := UInt16.ofNat (min (sizeSub size Header.size) n)

def contentPadding (contentLength : UInt16) : UInt8 :=
  let padding := UInt8.ofNat (chunkSize - contentLength.toNat % chunkSize)
  if padding = 8 then 0 else padding

/-- One turn of the loop in `write`, and the text that is left. -/
def writeRecord (w : World) (id : FullId) (type : RecordType) (s : Bytes) (t : Transceiver) :
    Returned Bytes :=
  let size := recordSize (t.buffer.requestWrite (wantedSize s.length))
  let length := contentLength size s.length
  let t := t.store Header.size (s.take length.toNat)
  let header := (Header.ofBytes (t.buffer.block 0 Header.size)).set type id.fcgiId length
    (contentPadding length)
  let (t, r) := (t.store 0 header.toBytes).secureWrite w size id false
  (t, r.map fun _ => s.drop length.toNat)

/-- The loop of `write`. -/
def writeRecords (w : World) (id : FullId) (type : RecordType) :
    Nat → Bytes → Transceiver → Returned Unit
  | 0, s, t => (t, if s = [] then .ok () else .error .outOfFuel)
  | n + 1, s, t =>
      if s = [] then (t, .ok ())
      else
        match writeRecord w id type s t with
        | (t, .error e) => (t, .error e)
        | (t, .ok s) => writeRecords w id type n s t

/-- `FcgistreamSink::write`. -/
def write (w : World) (id : FullId) (type : RecordType) (s : Bytes) (t : Transceiver) :
    Returned Unit :=
  writeRecords w id type s.length s t

end FcgistreamSink

/-! ## Records of eight bytes -/

/-- A record with a body of eight bytes; header and body are written over
the memory of the block. -/
def smallRecord (w : World) (id : FullId) (type : RecordType) (requestId : UInt16)
    (setBody : Bytes → Bytes) (kill : Bool) (t : Transceiver) : Returned Unit :=
  let header := (Header.ofBytes (t.buffer.block 0 Header.size)).set type requestId 8 0
  let t := t.store 0 header.toBytes
  let body := setBody (t.buffer.block Header.size 8)
  (t.store Header.size body).secureWrite w (Header.size + 8) id kill

/-- The END_REQUEST record of `Request::complete`, and of `handler` for an
unknown role. -/
def endRequest (w : World) (id : FullId) (status : Protocol.ProtocolStatus) (killCon : Bool)
    (t : Transceiver) : Returned Unit :=
  smallRecord w id .endRequest id.fcgiId
    (fun s => (((EndRequest.ofBytes s).setAppStatus 0).setProtocolStatus status).toBytes) killCon t

/-! ## The records of requests -/

/-- A record of this request with this content, a multiple of eight bytes
long. -/
structure Carries (type : RecordType) (fcgiId : UInt16) (content : Bytes) (record : Bytes) :
    Prop where
  isRecord : IsRecord record
  version : (Header.ofBytes record).version = 1
  type : (Header.ofBytes record).type = type.toByte
  requestId : (Header.ofBytes record).getRequestId = fcgiId
  content : Protocol.content record = content
  aligned : record.length % chunkSize = 0

namespace FcgistreamSink

theorem wantedSize_eq (n : Nat) : wantedSize n = min 65535 (n + 8 + (8 - n % 8) % 8) := by
  have hrest : (if n % chunkSize ≠ 0 then chunkSize - n % chunkSize else n % chunkSize)
      = (8 - n % 8) % 8 := by
    rw [show chunkSize = 8 from rfl]
    by_cases h0 : n % 8 = 0
    · rw [if_neg (not_not.mpr h0), h0]
    · rw [if_pos h0]
      omega
  unfold wantedSize
  dsimp only
  rw [hrest, show Header.size = 8 from rfl]
  by_cases hbig : 65535 < n + 8 + (8 - n % 8) % 8
  · rw [if_pos hbig]
    omega
  · rw [if_neg hbig]
    omega

/-- The numbers of a record: it fits the block, and header, content and
padding fill it. -/
theorem layout {n block : Nat} (hn : 0 < n) (hblock : min (wantedSize n) minBlockSize ≤ block)
    (hle : block ≤ wantedSize n) :
    0 < (contentLength (recordSize block) n).toNat
      ∧ (contentLength (recordSize block) n).toNat ≤ n
      ∧ Header.size + (contentLength (recordSize block) n).toNat
          + (contentPadding (contentLength (recordSize block) n)).toNat = recordSize block
      ∧ recordSize block % chunkSize = 0 ∧ recordSize block ≤ block ∧ 0 < recordSize block := by
  rw [wantedSize_eq] at hblock hle
  simp only [minBlockSize] at hblock
  have hsize : recordSize block = block / 8 * 8 := rfl
  have hsub : sizeSub (recordSize block) Header.size = recordSize block - 8 := by
    unfold sizeSub
    rw [hsize]
    simp only [Header.size]
    omega
  have hlength : (contentLength (recordSize block) n).toNat = min (recordSize block - 8) n := by
    unfold contentLength
    rw [hsub, UInt16.toNat_ofNat']
    omega
  generalize hl : contentLength (recordSize block) n = length at hlength
  have hpadding : (contentPadding length).toNat = (8 - length.toNat % 8) % 8 := by
    have hpad : 8 - length.toNat % 8 < 256 := by omega
    unfold contentPadding
    dsimp only
    rw [show chunkSize = 8 from rfl]
    by_cases h8 : 8 - length.toNat % 8 = 8
    · rw [h8]
      rfl
    · have hne : UInt8.ofNat (8 - length.toNat % 8) ≠ 8 := by
        intro heq
        have := congrArg UInt8.toNat heq
        rw [UInt8.toNat_ofNat', Nat.mod_eq_of_lt hpad] at this
        exact h8 this
      rw [if_neg hne, UInt8.toNat_ofNat', Nat.mod_eq_of_lt hpad]
      omega
  rw [hpadding, hlength]
  simp only [chunkSize, Header.size]
  rw [hsize]
  omega

variable {w : World} {id : FullId} {type : RecordType} {s : Bytes} {t : Transceiver}

/-- The longest record. -/
def maxRecord : Nat := 65528

/-- One turn secures one record, with a beginning of the text. -/
theorem writeRecord_spec (h : t.Ledger) (hw : NoAgain w) (id : FullId) (type : RecordType)
    (hs : s ≠ []) :
    ∃ record k, 0 < k ∧ k ≤ s.length ∧ Carries type id.fcgiId (s.take k) record
      ∧ record.length ≤ maxRecord
      ∧ Steps w t (writeRecord w id type s t).1
      ∧ secured (writeRecord w id type s t).1.log
        = secured t.log ++ [{ id, data := record, closeFd := false }]
      ∧ ((writeRecord w id type s t).2 = .ok (s.drop k)
        ∨ (writeRecord w id type s t).2 = .error .socketWrite ∧ ∃ n, w.written n = .failed) := by
  have hpos : 0 < s.length := List.length_pos_of_ne_nil hs
  have hblock := h.sound.min_le_requestWrite (wantedSize s.length)
  have hle : t.buffer.requestWrite (wantedSize s.length) ≤ wantedSize s.length := Nat.min_le_left ..
  have hroom : t.buffer.writeIt.end_ + t.buffer.requestWrite (wantedSize s.length) ≤ Chunk.size := by
    have := h.sound.room
    unfold Buffer.requestWrite
    omega
  obtain ⟨hk, hkle, hfill, haligned, hsize, hsizepos⟩ := layout hpos hblock hle
  have hmax : wantedSize s.length ≤ 65535 := by
    rw [wantedSize_eq]
    omega
  unfold writeRecord
  dsimp only
  generalize hsz : recordSize (t.buffer.requestWrite (wantedSize s.length)) = size at *
  generalize hlen : contentLength size s.length = length at *
  generalize hheader : (Header.ofBytes ((t.store Header.size (s.take length.toNat)).buffer.block 0
    Header.size)).set type id.fcgiId length (contentPadding length) = header
  generalize ht : (t.store Header.size (s.take length.toNat)).store 0 header.toBytes = t'
  -- the record in the memory of the block
  have htake : (s.take length.toNat).length = length.toNat := List.length_take_of_le hkle
  have hrecord : t'.buffer.block 0 size
      = header.toBytes ++ (s.take length.toNat
        ++ t.buffer.block (Header.size + length.toNat) (contentPadding length).toNat) := by
    have houter := Buffer.block_store (t.buffer.store Header.size (s.take length.toNat)) 0
      header.toBytes (length.toNat + (contentPadding length).toNat)
    have hinner := Buffer.block_store t.buffer Header.size (s.take length.toNat)
      (contentPadding length).toNat
    rw [htake] at hinner
    rw [Header.length_toBytes, Nat.zero_add, hinner] at houter
    rw [← hfill, ← ht, Nat.add_assoc]
    exact houter
  have hbody : (s.take length.toNat ++ t.buffer.block (Header.size + length.toNat)
      (contentPadding length).toNat).length
        = header.getContentLength + header.getPaddingLength := by
    rw [List.length_append, htake, Buffer.length_block, ← hheader, Header.getContentLength_set,
      Header.getPaddingLength_set]
  have hstore : Steps w t t' := by
    rw [← ht]
    exact (Relation.ReflTransGen.single (.store _ _)).tail (.store _ _)
  have hledger := h.steps hw hstore
  have hend : t'.buffer.writeIt.end_ = t.buffer.writeIt.end_ := by
    rw [← ht]
    rfl
  have hlog : t'.log = t.log := by
    rw [← ht]
    rfl
  have hfits : t'.buffer.writeIt.end_ + size ≤ Chunk.size := by omega
  obtain ⟨hsecured, hends⟩ := hledger.secureWrite_ends hw id false hsizepos hfits
  refine ⟨t'.buffer.block 0 size, length.toNat, hk, hkle, ?_, ?_,
    hstore.trans (secureWrite_steps id false hsizepos hfits), hlog ▸ hsecured, ?_⟩
  · have hlength : (t'.buffer.block 0 size).length = size := Buffer.length_block ..
    refine ⟨?_, ?_, ?_, ?_, ?_, ?_⟩
    · rw [hrecord]
      exact isRecord_of_header hbody
    · rw [hrecord, Header.ofBytes_toBytes_append, ← hheader, Header.version_set]
    · rw [hrecord, Header.ofBytes_toBytes_append, ← hheader, Header.type_set]
    · rw [hrecord, Header.ofBytes_toBytes_append, ← hheader, Header.getRequestId_set]
    · rw [hrecord]
      refine content_of_header ?_
      rw [htake, ← hheader, Header.getContentLength_set]
    · rw [hlength]
      exact haligned
  · rw [Buffer.length_block]
    simp only [maxRecord, chunkSize] at haligned ⊢
    omega
  · rcases hends with hr | ⟨hr, hfailed⟩
    · left
      rw [hr]
      rfl
    · right
      rw [hr]
      exact ⟨rfl, hfailed⟩

/-- The records of a loop: each has content of its own, together they have
a beginning of the text, and all of it when the loop ends. -/
theorem writeRecords_spec (h : t.Ledger) (hw : NoAgain w) (id : FullId) (type : RecordType)
    {n : Nat} (hn : s.length ≤ n) :
    ∃ rs : List Bytes, Steps w t (writeRecords w id type n s t).1
      ∧ secured (writeRecords w id type n s t).1.log
        = secured t.log ++ rs.map (fun r => { id, data := r, closeFd := false })
      ∧ (∀ r ∈ rs, Carries type id.fcgiId (content r) r ∧ content r ≠ [] ∧ r.length ≤ maxRecord)
      ∧ ((writeRecords w id type n s t).2 = .ok () ∧ rs.flatMap content = s
        ∨ (writeRecords w id type n s t).2 = .error .socketWrite ∧ (∃ k, w.written k = .failed)
          ∧ rs.flatMap content <+: s) := by
  induction n generalizing s t with
  | zero =>
      obtain rfl : s = [] := List.eq_nil_of_length_eq_zero (Nat.le_zero.mp hn)
      exact ⟨[], .refl, (List.append_nil _).symm, by simp, .inl ⟨rfl, rfl⟩⟩
  | succ n ih =>
      cases s with
      | nil => exact ⟨[], .refl, (List.append_nil _).symm, by simp, .inl ⟨rfl, rfl⟩⟩
      | cons c s =>
          obtain ⟨record, k, hk, hkle, hcarries, hmax, hsteps, hsecured, hends⟩ :=
            writeRecord_spec h hw id type (List.cons_ne_nil c s)
          have hcontent := hcarries.content
          have hne : content record ≠ [] := by
            rw [hcontent]
            refine List.ne_nil_of_length_pos ?_
            rw [List.length_take_of_le hkle]
            exact hk
          have hledger := h.steps hw hsteps
          rw [writeRecords, if_neg (List.cons_ne_nil c s)]
          generalize writeRecord w id type (c :: s) t = r at hsteps hsecured hends hledger
          obtain ⟨t', r⟩ := r
          rcases hends with hr | ⟨hr, hfailed⟩ <;> subst hr
          · have hshort : ((c :: s).drop k).length ≤ n := by
              rw [List.length_drop]
              omega
            obtain ⟨rs, hsteps', hsecured', hrs, hends'⟩ := ih hledger hshort
            refine ⟨record :: rs, hsteps.trans hsteps', ?_, ?_, ?_⟩
            · rw [hsecured', hsecured, List.map_cons, List.append_assoc, List.singleton_append]
            · intro r hr
              rcases List.mem_cons.mp hr with rfl | hr
              · exact ⟨by rw [hcontent]; exact hcarries, hne, hmax⟩
              · exact hrs r hr
            · rw [List.flatMap_cons, hcontent]
              rcases hends' with ⟨hr', hall⟩ | ⟨hr', hfailed, hall⟩
              · left
                exact ⟨hr', by rw [hall, List.take_append_drop]⟩
              · right
                refine ⟨hr', hfailed, ?_⟩
                conv_rhs => rw [← List.take_append_drop k (c :: s)]
                exact (List.prefix_append_right_inj _).mpr hall
          · refine ⟨[record], hsteps, hsecured, ?_, .inr ⟨rfl, hfailed, ?_⟩⟩
            · intro r hr
              obtain rfl := List.mem_singleton.mp hr
              exact ⟨by rw [hcontent]; exact hcarries, hne, hmax⟩
            · rw [List.flatMap_singleton, hcontent]
              exact List.take_prefix ..

end FcgistreamSink

/-! ## END_REQUEST -/

variable {w : World} {t : Transceiver}

/-- One record, whose connection is closed behind it when it says so. -/
theorem smallRecord_spec (h : t.Ledger) (hw : NoAgain w) (id : FullId) (type : RecordType)
    (requestId : UInt16) (setBody : Bytes → Bytes)
    (hbody : ∀ s, s.length = 8 → (setBody s).length = 8) (kill : Bool) :
    ∃ old record, old.length = 8 ∧ Carries type requestId (setBody old) record
      ∧ Steps w t (smallRecord w id type requestId setBody kill t).1
      ∧ secured (smallRecord w id type requestId setBody kill t).1.log
        = secured t.log ++ [{ id, data := record, closeFd := kill }]
      ∧ ((smallRecord w id type requestId setBody kill t).2 = .ok ()
        ∨ (smallRecord w id type requestId setBody kill t).2 = .error .socketWrite
          ∧ ∃ n, w.written n = .failed) := by
  unfold smallRecord
  dsimp only
  generalize hheader : (Header.ofBytes (t.buffer.block 0 Header.size)).set type requestId 8 0
    = header
  have hold : ((t.store 0 header.toBytes).buffer.block Header.size 8).length = 8 :=
    Buffer.length_block ..
  generalize (t.store 0 header.toBytes).buffer.block Header.size 8 = old at hold ⊢
  have hlen := hbody old hold
  generalize hset : setBody old = body at hlen ⊢
  generalize ht : (t.store 0 header.toBytes).store Header.size body = t'
  have hrecord : t'.buffer.block 0 (Header.size + 8) = header.toBytes ++ body := by
    have houter := Buffer.block_store_behind (t.buffer.store 0 header.toBytes) Header.size body
    have hinner := Buffer.block_store t.buffer 0 header.toBytes 0
    rw [Header.length_toBytes, Nat.add_zero] at hinner
    rw [hlen, hinner] at houter
    rw [← ht]
    refine houter.trans ?_
    simp [Buffer.block]
  have hstore : Steps w t t' := by
    rw [← ht]
    exact (Relation.ReflTransGen.single (.store _ _)).tail (.store _ _)
  have hledger := h.steps hw hstore
  have hfits : t'.buffer.writeIt.end_ + (Header.size + 8) ≤ Chunk.size := by
    have := hledger.sound.room
    simp only [minBlockSize, Header.size] at *
    omega
  have hpos : 0 < Header.size + 8 := by simp [Header.size]
  have hlog : t'.log = t.log := by
    rw [← ht]
    rfl
  obtain ⟨hsecured, hends⟩ := hledger.secureWrite_ends hw id kill hpos hfits
  have hcontent : body.length = header.getContentLength := by
    rw [hlen, ← hheader, Header.getContentLength_set]
    rfl
  refine ⟨old, header.toBytes ++ body, hold, ⟨?_, ?_, ?_, ?_, ?_, ?_⟩,
    hstore.trans (secureWrite_steps id kill hpos hfits), ?_, hends⟩
  · refine isRecord_of_header ?_
    rw [hcontent, ← hheader, Header.getPaddingLength_set]
    rfl
  · rw [Header.ofBytes_toBytes_append, ← hheader, Header.version_set]
  · rw [Header.ofBytes_toBytes_append, ← hheader, Header.type_set]
  · rw [Header.ofBytes_toBytes_append, ← hheader, Header.getRequestId_set]
  · have hpadded : content (header.toBytes ++ (body ++ [])) = body := content_of_header hcontent
    rw [List.append_nil] at hpadded
    exact hpadded.trans hset.symm
  · rw [List.length_append, Header.length_toBytes, hlen]
    rfl
  · rw [← hrecord, ← hlog]
    exact hsecured

end Simurga
