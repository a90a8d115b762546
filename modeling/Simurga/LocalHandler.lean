import Simurga.Sink
import Simurga.Params

/-!
# Management records

`ManagerPar::localHandler` (`manager.cpp`): the records with request id 0,
and the replies of `protocol.cpp`. A query for values is answered for its
first name only; any other record is answered with UNKNOWN_TYPE.

`ManagementReply` declares the lengths of the name and the value as its
content, without the two bytes that hold these lengths. So the web server
does not get the value, and it reads the last two bytes of the reply as the
beginning of the next record (`ManagementReply.cut`).
-/

namespace Simurga

open Protocol Transceiver

/-! ## The replies -/

namespace Protocol

/-- `UnknownType`. -/
structure UnknownType where
  type : UInt8
  reserved : Bytes
deriving DecidableEq

namespace UnknownType

def toBytes (b : UnknownType) : Bytes := b.type :: b.reserved

def ofBytes (s : Bytes) : UnknownType where
  type := s.getD 0 0
  reserved := (s.drop 1).take 7

def setType (b : UnknownType) (type : UInt8) : UnknownType := { b with type }

end UnknownType

/-- `ManagementReply`, with the values of its template parameters in the
lengths of the texts. The objects are static, so that what the constructor
does not set is zero. -/
structure ManagementReply where
  header : Header
  nameLength : UInt8
  valueLength : UInt8
  name : Bytes
  value : Bytes
  padding : Bytes
deriving DecidableEq

namespace ManagementReply

/-- The constructor. -/
def make (name value : Bytes) (paddingLength : Nat) : ManagementReply where
  header := (Header.ofBytes []).set .getValuesResult 0 (UInt16.ofNat (name.length + value.length))
    (UInt8.ofNat paddingLength)
  nameLength := UInt8.ofNat name.length
  valueLength := UInt8.ofNat value.length
  name
  value
  padding := List.replicate paddingLength 0

def toBytes (r : ManagementReply) : Bytes :=
  r.header.toBytes ++ (r.nameLength :: r.valueLength :: (r.name ++ (r.value ++ r.padding)))

end ManagementReply

def maxConnsReply : ManagementReply := .make (bytes "FCGI_MAX_CONNS") (bytes "10") 8

def maxReqsReply : ManagementReply := .make (bytes "FCGI_MAX_REQS") (bytes "50") 1

def mpxsConnsReply : ManagementReply := .make (bytes "FCGI_MPXS_CONNS") (bytes "1") 8

/-- Whether a name is this one; undefined when the memory ends in it. -/
def ParamHeader.named (h : ParamHeader) (label : Bytes) : Option Bool :=
  if h.nameSize = label.length then
    if h.name.length < label.length then none else some (h.name.take label.length == label)
  else some false

/-- The reply to the first pair of a GET_VALUES record. -/
def ParamHeader.reply (h : ParamHeader) : Option (Option ManagementReply) :=
  (h.named (bytes "FCGI_MAX_CONNS")).bind fun b =>
    if b then some (some maxConnsReply)
    else
      (h.named (bytes "FCGI_MAX_REQS")).bind fun b =>
        if b then some (some maxReqsReply)
        else (h.named (bytes "FCGI_MPXS_CONNS")).map fun b =>
          if b then some mpxsConnsReply else none

end Protocol

/-! ## `localHandler` -/

/-- A reply copied into a block. -/
def sendReply (w : World) (id : FullId) (reply : ManagementReply) (t : Transceiver) :
    Returned Unit :=
  (t.store 0 reply.toBytes).secureWrite w reply.toBytes.length id false

/-- `localHandler` on a message from the transceiver. -/
def localHandler (w : World) (id : FullId) (message : Bytes) (t : Transceiver) : Returned Unit :=
  let header := Header.ofBytes message
  if header.type = RecordType.getValues.toByte then
    match (processParamHeader (message.drop Header.size)).bind ParamHeader.reply with
    | none => (t, .error .undefined)
    | some none => (t, .ok ())
    | some (some reply) => sendReply w id reply t
  else
    smallRecord w id .unknownType 0
      (fun s => ((UnknownType.ofBytes s).setType header.type).toBytes) false t

/-! ## What the web server makes of a reply -/

namespace Protocol.ManagementReply

variable {name value : Bytes} {paddingLength : Nat}

/-- The lengths that a reply is made for. -/
structure Fits (name value : Bytes) (paddingLength : Nat) : Prop where
  name : name.length < 128
  value : value.length < 128
  padding : paddingLength < 256

theorem getContentLength_make (h : Fits name value paddingLength) :
    (make name value paddingLength).header.getContentLength = name.length + value.length := by
  have := h.name
  have := h.value
  unfold make
  dsimp only
  rw [Header.getContentLength_set, UInt16.toNat_ofNat']
  omega

theorem getPaddingLength_make (h : Fits name value paddingLength) :
    (make name value paddingLength).header.getPaddingLength = paddingLength := by
  unfold make
  dsimp only
  rw [Header.getPaddingLength_set, UInt8.toNat_ofNat', Nat.mod_eq_of_lt h.padding]

/-- What is in front of the padding: the pair, as it would be encoded. -/
def pair (h : Fits name value paddingLength) : Param where
  name
  value
  longName := false
  longValue := false
  name_lt := h.name
  value_lt := h.value

theorem toBytes_make (h : Fits name value paddingLength) :
    (make name value paddingLength).toBytes
      = (make name value paddingLength).header.toBytes
        ++ ((pair h).encode ++ List.replicate paddingLength 0) := by
  simp [toBytes, make, pair, Param.encode, encodeLength]

theorem length_pair (h : Fits name value paddingLength) :
    (pair h).encode.length = name.length + value.length + 2 := by
  simp [pair, Param.encode, encodeLength]

/-- The record that is read: two bytes of the pair are missing from its
content, and two bytes of the reply are left behind it. -/
theorem cut (h : Fits name value paddingLength) (hpadding : 0 < paddingLength) :
    ∃ record last, (make name value paddingLength).toBytes = record ++ last ∧ last.length = 2
      ∧ (∀ s, records.cut (record ++ last ++ s) = some (record, last ++ s))
      ∧ content record = (pair h).encode.take (name.length + value.length) := by
  have hcl := getContentLength_make h
  have hpl := getPaddingLength_make h
  have hlen := length_pair h
  have hbytes := toBytes_make h
  generalize hheader : (make name value paddingLength).header = header at *
  generalize hpair : (pair h).encode = encoded at *
  -- the record and what is left of the reply
  have hsplit : encoded ++ List.replicate paddingLength 0
      = (encoded ++ List.replicate paddingLength 0).take (name.length + value.length + paddingLength)
        ++ (encoded ++ List.replicate paddingLength 0).drop
          (name.length + value.length + paddingLength) := (List.take_append_drop ..).symm
  have hbodylen : ((encoded ++ List.replicate paddingLength 0).take
      (name.length + value.length + paddingLength)).length
        = header.getContentLength + header.getPaddingLength := by
    rw [List.length_take, List.length_append, List.length_replicate, hcl, hpl]
    omega
  have hlast : ((encoded ++ List.replicate paddingLength 0).drop
      (name.length + value.length + paddingLength)).length = 2 := by
    rw [List.length_drop, List.length_append, List.length_replicate]
    omega
  refine ⟨header.toBytes ++ (encoded ++ List.replicate paddingLength 0).take
    (name.length + value.length + paddingLength), _, ?_, hlast, ?_, ?_⟩
  · rw [hbytes, List.append_assoc, ← hsplit]
  · intro s
    rw [List.append_assoc (_ ++ _)]
    exact (isRecord_of_header hbodylen).writes _
  · have htake : (encoded ++ List.replicate paddingLength 0).take
        (name.length + value.length + paddingLength)
          = encoded.take (name.length + value.length)
            ++ ((encoded ++ List.replicate paddingLength 0).take
              (name.length + value.length + paddingLength)).drop (name.length + value.length) := by
      have := List.take_append_drop (name.length + value.length)
        ((encoded ++ List.replicate paddingLength 0).take
          (name.length + value.length + paddingLength))
      rw [List.take_take, Nat.min_eq_left (by omega),
        List.take_append_of_le_length (by omega)] at this
      exact this.symm
    rw [htake]
    refine content_of_header ?_
    rw [List.length_take, hcl]
    omega

/-- The content is not a list of pairs: the first one goes on behind it. -/
theorem not_pairs (h : Fits name value paddingLength) (hname : 2 ≤ name.length) (ps : List Param) :
    (pair h).encode.take (name.length + value.length) ≠ ps.flatMap Param.encode := by
  have hn := h.name
  have hv := h.value
  have h128 : (128 : UInt8).toNat = 128 := rfl
  obtain ⟨k, hk⟩ := Nat.exists_eq_add_of_le (Nat.le_add_right_of_le hname : 2 ≤ _ + value.length)
  have hcontent : (pair h).encode.take (name.length + value.length)
      = UInt8.ofNat name.length :: UInt8.ofNat value.length :: (name ++ value).take k := by
    rw [hk, Nat.add_comm 2 k]
    simp [pair, Param.encode, encodeLength]
  have hshort : ∀ n, n < 128 → ¬ 128 ≤ UInt8.ofNat n := by
    intro n hn hle
    rw [UInt8.le_iff_toNat_le, h128, UInt8.toNat_ofNat'] at hle
    omega
  intro heq
  cases ps with
  | nil =>
      rw [hcontent] at heq
      cases heq
  | cons q qs =>
      obtain ⟨header, hread, hq⟩ := processParamHeader_encode q (qs.flatMap Param.encode)
      rw [List.flatMap_cons] at heq
      have hlen := congrArg List.length heq
      rw [List.length_take, length_pair, List.length_append, ← hq.used] at hlen
      rw [← heq, hcontent] at hread
      simp only [processParamHeader, readLength, if_neg (hshort _ hn), if_neg (hshort _ hv),
        Option.bind_some, List.drop_succ_cons, List.drop_zero, Option.map_some,
        Option.some.injEq] at hread
      rw [← hread] at hlen
      simp only [ParamHeader.used, UInt8.toNat_ofNat'] at hlen
      omega

end Protocol.ManagementReply

/-! ## What is sent -/

namespace Protocol

/-- The reply to a query for this name. -/
def ManagementReply.ofName (name : Bytes) : Option ManagementReply :=
  if name = bytes "FCGI_MAX_CONNS" then some maxConnsReply
  else if name = bytes "FCGI_MAX_REQS" then some maxReqsReply
  else if name = bytes "FCGI_MPXS_CONNS" then some mpxsConnsReply
  else none

/-- The replies are made for their lengths, and fit a smallest block. -/
theorem ManagementReply.exists_make {name : Bytes} {reply : ManagementReply}
    (h : ofName name = some reply) :
    ∃ value paddingLength, reply = make name value paddingLength ∧ Fits name value paddingLength
      ∧ 0 < paddingLength ∧ 2 ≤ name.length ∧ reply.toBytes.length ≤ minBlockSize := by
  unfold ofName at h
  split at h
  · rename_i hname
    rw [hname, ← Option.some.inj h]
    exact ⟨bytes "10", 8, rfl, ⟨by decide, by decide, by decide⟩, by decide⟩
  · split at h
    · rename_i hname
      rw [hname, ← Option.some.inj h]
      exact ⟨bytes "50", 1, rfl, ⟨by decide, by decide, by decide⟩, by decide⟩
    · split at h
      · rename_i hname
        rw [hname, ← Option.some.inj h]
        exact ⟨bytes "1", 8, rfl, ⟨by decide, by decide, by decide⟩, by decide⟩
      · cases h

/-- The comparisons of `localHandler` on a pair that is there. -/
theorem named_eq {h : ParamHeader} {name : Bytes} (hsize : h.nameSize = name.length)
    (hname : h.name.take h.nameSize = name) (label : Bytes) :
    h.named label = some (name == label) := by
  have hlen : name.length ≤ h.name.length := by
    rw [← hname, List.length_take]
    exact Nat.min_le_right ..
  unfold ParamHeader.named
  rw [hsize]
  by_cases heq : name.length = label.length
  · rw [if_pos heq, if_neg (by omega), ← heq, ← hsize, hname]
  · rw [if_neg heq]
    refine congrArg some (Eq.symm (beq_eq_false_iff_ne.mpr fun h => heq ?_))
    rw [h]

/-- A query is answered by its first name. -/
theorem reply_encode (p : Param) (rest : Bytes) :
    (processParamHeader (p.encode ++ rest)).bind ParamHeader.reply
      = some (ManagementReply.ofName p.name) := by
  obtain ⟨h, hread, hp⟩ := processParamHeader_encode p rest
  have hnamed := named_eq hp.nameSize hp.take_name
  rw [hread, Option.bind_some, ParamHeader.reply, hnamed, hnamed, hnamed, ManagementReply.ofName]
  simp only [Option.bind_some, Option.map_some, beq_iff_eq]
  split
  · rfl
  · split
    · rfl
    · split <;> rfl

theorem exists_name_of_reply {h : ParamHeader} {reply : ManagementReply}
    (hreply : h.reply = some (some reply)) :
    ∃ name, ManagementReply.ofName name = some reply := by
  obtain ⟨b, -, hreply⟩ := Option.bind_eq_some_iff.mp hreply
  cases b with
  | true => exact ⟨bytes "FCGI_MAX_CONNS", Option.some.inj hreply⟩
  | false =>
      obtain ⟨b, -, hreply⟩ := Option.bind_eq_some_iff.mp hreply
      cases b with
      | true => exact ⟨bytes "FCGI_MAX_REQS", Option.some.inj hreply⟩
      | false =>
          obtain ⟨b, -, hreply⟩ := Option.map_eq_some_iff.mp hreply
          cases b with
          | true => exact ⟨bytes "FCGI_MPXS_CONNS", hreply⟩
          | false => cases hreply

theorem ManagementReply.length_toBytes_pos (reply : ManagementReply) : 0 < reply.toBytes.length := by
  rw [toBytes, List.length_append, Header.length_toBytes]
  exact Nat.add_pos_left (Nat.succ_pos 7) _

end Protocol

variable {w : World} {t : Transceiver} {message : Bytes}

/-- A reply is secured as it is. -/
theorem sendReply_spec (h : t.Ledger) (hw : NoAgain w) (id : FullId) {reply : ManagementReply}
    (hsize : reply.toBytes.length ≤ minBlockSize) :
    Steps w t (sendReply w id reply t).1
      ∧ secured (sendReply w id reply t).1.log
        = secured t.log ++ [{ id, data := reply.toBytes, closeFd := false }]
      ∧ ((sendReply w id reply t).2 = .ok ()
        ∨ (sendReply w id reply t).2 = .error .socketWrite ∧ ∃ n, w.written n = .failed) := by
  have hstore : Steps w t (t.store 0 reply.toBytes) := .single (.store _ _)
  have hledger := h.steps hw hstore
  have hfits : (t.store 0 reply.toBytes).buffer.writeIt.end_ + reply.toBytes.length ≤ Chunk.size := by
    have := hledger.sound.room
    omega
  have hpos := reply.length_toBytes_pos
  obtain ⟨hsecured, hends⟩ := hledger.secureWrite_ends hw id false hpos hfits
  have hblock : (t.store 0 reply.toBytes).buffer.block 0 reply.toBytes.length = reply.toBytes := by
    have := Buffer.block_store t.buffer 0 reply.toBytes 0
    rw [Nat.add_zero] at this
    refine Eq.trans this ?_
    simp [Buffer.block]
  rw [hblock] at hsecured
  exact ⟨hstore.trans (secureWrite_steps id false hpos hfits), hsecured, hends⟩

/-- Any other record is answered with UNKNOWN_TYPE. -/
theorem localHandler_unknownType (h : t.Ledger) (hw : NoAgain w) (id : FullId)
    (htype : (Header.ofBytes message).type ≠ RecordType.getValues.toByte) :
    ∃ record, Carries .unknownType 0 (content record) record
      ∧ (content record).head? = some (Header.ofBytes message).type
      ∧ Steps w t (localHandler w id message t).1
      ∧ secured (localHandler w id message t).1.log
        = secured t.log ++ [{ id, data := record, closeFd := false }]
      ∧ ((localHandler w id message t).2 = .ok ()
        ∨ (localHandler w id message t).2 = .error .socketWrite
          ∧ ∃ n, w.written n = .failed) := by
  obtain ⟨old, record, -, hcarries, hsteps, hsecured, hends⟩ :=
    smallRecord_spec h hw id .unknownType 0
      (fun s => ((UnknownType.ofBytes s).setType (Header.ofBytes message).type).toBytes)
      (fun s hs => by simp [UnknownType.toBytes, UnknownType.setType, UnknownType.ofBytes, hs]) false
  unfold localHandler
  dsimp only
  rw [if_neg htype]
  refine ⟨record, ?_, ?_, hsteps, hsecured, hends⟩
  · rw [hcarries.content]
    exact hcarries
  · rw [hcarries.content]
    rfl

/-- A query is answered by the reply to its first name, if there is one. -/
theorem localHandler_getValues (id : FullId) (p : Param) (rest : Bytes)
    (htype : (Header.ofBytes message).type = RecordType.getValues.toByte)
    (hbody : message.drop Header.size = p.encode ++ rest) :
    localHandler w id message t
      = (ManagementReply.ofName p.name).elim (t, .ok ()) fun reply => sendReply w id reply t := by
  unfold localHandler
  dsimp only
  rw [if_pos htype, hbody, reply_encode]
  cases ManagementReply.ofName p.name <;> rfl

/-- Whatever a query for values asks, a reply is all that is sent. -/
theorem localHandler_query (h : t.Ledger) (hw : NoAgain w) (id : FullId)
    (htype : (Header.ofBytes message).type = RecordType.getValues.toByte) :
    ∃ ps, Steps w t (localHandler w id message t).1
      ∧ secured (localHandler w id message t).1.log = secured t.log ++ ps
      ∧ ∀ p ∈ ps, p.id = id := by
  unfold localHandler
  dsimp only
  rw [if_pos htype]
  cases hreply : (processParamHeader (message.drop Header.size)).bind ParamHeader.reply with
  | none => exact ⟨[], .refl, (List.append_nil _).symm, by simp⟩
  | some reply =>
      cases reply with
      | none => exact ⟨[], .refl, (List.append_nil _).symm, by simp⟩
      | some reply =>
          obtain ⟨header, -, hheader⟩ := Option.bind_eq_some_iff.mp hreply
          obtain ⟨name, hname⟩ := exists_name_of_reply hheader
          obtain ⟨-, -, -, -, -, -, hsize⟩ := ManagementReply.exists_make hname
          obtain ⟨hsteps, hsecured, -⟩ := sendReply_spec h hw id hsize
          refine ⟨_, hsteps, hsecured, fun p hp => ?_⟩
          rw [List.mem_singleton.mp hp]

end Simurga
