import Simurga.Common
import Simurga.Lib.BigEndian
import Simurga.Lib.Framing
import Mathlib.Data.List.GetD

/-!
# The FastCGI protocol

`protocol.hpp`: the ids and types of records, and the structures that the
code casts to and from raw memory. A structure is its bytes; a setter
writes its own ones and leaves the rest as they were in memory, so that the
reserved bytes of what is sent are whatever was there before.

`records` is the reader of a stream of records: the one of
`Transceiver::handler`, and the one of the web server on the other side.
-/

namespace Simurga

namespace Protocol

/-- `Protocol::FullId`: the descriptor is cut to 16 bits. -/
structure FullId where
  fcgiId : UInt16
  fd : UInt16
deriving DecidableEq

/-- `Protocol::RecordType`. -/
inductive RecordType where
  | beginRequest | abortRequest | endRequest | params | input | output | error | data
  | getValues | getValuesResult | unknownType
deriving DecidableEq

def RecordType.toByte : RecordType → UInt8
  | .beginRequest => 1
  | .abortRequest => 2
  | .endRequest => 3
  | .params => 4
  | .input => 5
  | .output => 6
  | .error => 7
  | .data => 8
  | .getValues => 9
  | .getValuesResult => 10
  | .unknownType => 11

/-- `Protocol::chunkSize`. -/
def chunkSize : Nat := 8

/-- Subtraction of `size_t`. -/
def sizeSub (a b : Nat) : Nat := (a + 2 ^ 64 - b) % 2 ^ 64

/-! ## `Header` -/

structure Header where
  version : UInt8
  type : UInt8
  requestIdB1 : UInt8
  requestIdB0 : UInt8
  contentLengthB1 : UInt8
  contentLengthB0 : UInt8
  paddingLength : UInt8
  reserved : UInt8
deriving DecidableEq

namespace Header

/-- `sizeof(Header)`. -/
def size : Nat := 8

def toBytes (h : Header) : Bytes :=
  [h.version, h.type, h.requestIdB1, h.requestIdB0, h.contentLengthB1, h.contentLengthB0,
    h.paddingLength, h.reserved]

/-- The cast from raw memory. -/
def ofBytes (s : Bytes) : Header where
  version := s.getD 0 0
  type := s.getD 1 0
  requestIdB1 := s.getD 2 0
  requestIdB0 := s.getD 3 0
  contentLengthB1 := s.getD 4 0
  contentLengthB0 := s.getD 5 0
  paddingLength := s.getD 6 0
  reserved := s.getD 7 0

def setVersion (h : Header) (version : UInt8) : Header := { h with version }

def setType (h : Header) (type : RecordType) : Header := { h with type := type.toByte }

def setRequestId (h : Header) (requestId : UInt16) : Header :=
  { h with requestIdB1 := UInt8.ofNat (requestId.toNat / 256)
           requestIdB0 := UInt8.ofNat requestId.toNat }

def setContentLength (h : Header) (contentLength : UInt16) : Header :=
  { h with contentLengthB1 := UInt8.ofNat (contentLength.toNat / 256)
           contentLengthB0 := UInt8.ofNat contentLength.toNat }

def setPaddingLength (h : Header) (paddingLength : UInt8) : Header := { h with paddingLength }

def getRequestId (h : Header) : UInt16 :=
  UInt16.ofNat (BigEndian.value [h.requestIdB1, h.requestIdB0])

def getContentLength (h : Header) : Nat :=
  BigEndian.value [h.contentLengthB1, h.contentLengthB0]

def getPaddingLength (h : Header) : Nat := h.paddingLength.toNat

/-- The setters as every sender of the program calls them. -/
def set (h : Header) (type : RecordType) (requestId contentLength : UInt16)
    (paddingLength : UInt8) : Header :=
  ((((h.setVersion 1).setType type).setRequestId requestId).setContentLength
    contentLength).setPaddingLength paddingLength

variable {h : Header} {type : RecordType} {requestId contentLength : UInt16} {paddingLength : UInt8}

@[simp] theorem length_toBytes (h : Header) : h.toBytes.length = size := rfl

@[simp] theorem ofBytes_toBytes_append (h : Header) (s : Bytes) : ofBytes (h.toBytes ++ s) = h := rfl

theorem ofBytes_append {s : Bytes} (hs : size ≤ s.length) (t : Bytes) :
    ofBytes (s ++ t) = ofBytes s := by
  have hget : ∀ i < size, (s ++ t).getD i 0 = s.getD i 0 := fun i hi =>
    List.getD_append s t 0 i (by omega)
  unfold ofBytes
  rw [hget 0 (by decide), hget 1 (by decide), hget 2 (by decide), hget 3 (by decide),
    hget 4 (by decide), hget 5 (by decide), hget 6 (by decide), hget 7 (by decide)]

/-- Two bytes hold a number of 16 bits. -/
theorem value_two (n : UInt16) :
    BigEndian.value [UInt8.ofNat (n.toNat / 256), UInt8.ofNat n.toNat] = n.toNat := by
  have hlt : n.toNat < 256 ^ 2 := n.toNat_lt
  exact BigEndian.value_digits hlt

@[simp] theorem version_set : (h.set type requestId contentLength paddingLength).version = 1 := rfl

@[simp] theorem type_set :
    (h.set type requestId contentLength paddingLength).type = type.toByte := rfl

@[simp] theorem getRequestId_set :
    (h.set type requestId contentLength paddingLength).getRequestId = requestId := by
  rw [getRequestId]
  exact (congrArg UInt16.ofNat (value_two requestId)).trans UInt16.ofNat_toNat

@[simp] theorem getContentLength_set :
    (h.set type requestId contentLength paddingLength).getContentLength = contentLength.toNat :=
  value_two contentLength

@[simp] theorem getPaddingLength_set :
    (h.set type requestId contentLength paddingLength).getPaddingLength = paddingLength.toNat := rfl

end Header

/-! ## `EndRequest` -/

/-- `Protocol::ProtocolStatus`. -/
inductive ProtocolStatus where
  | requestComplete | cantMpxConn | overloaded | unknownRole
deriving DecidableEq

def ProtocolStatus.toByte : ProtocolStatus → UInt8
  | .requestComplete => 0
  | .cantMpxConn => 1
  | .overloaded => 2
  | .unknownRole => 3

structure EndRequest where
  appStatusB3 : UInt8
  appStatusB2 : UInt8
  appStatusB1 : UInt8
  appStatusB0 : UInt8
  protocolStatus : UInt8
  reserved0 : UInt8
  reserved1 : UInt8
  reserved2 : UInt8
deriving DecidableEq

namespace EndRequest

def size : Nat := 8

def toBytes (b : EndRequest) : Bytes :=
  [b.appStatusB3, b.appStatusB2, b.appStatusB1, b.appStatusB0, b.protocolStatus, b.reserved0,
    b.reserved1, b.reserved2]

def ofBytes (s : Bytes) : EndRequest where
  appStatusB3 := s.getD 0 0
  appStatusB2 := s.getD 1 0
  appStatusB1 := s.getD 2 0
  appStatusB0 := s.getD 3 0
  protocolStatus := s.getD 4 0
  reserved0 := s.getD 5 0
  reserved1 := s.getD 6 0
  reserved2 := s.getD 7 0

def setAppStatus (b : EndRequest) (status : UInt32) : EndRequest :=
  { b with appStatusB3 := UInt8.ofNat (status.toNat / 256 / 256 / 256)
           appStatusB2 := UInt8.ofNat (status.toNat / 256 / 256)
           appStatusB1 := UInt8.ofNat (status.toNat / 256)
           appStatusB0 := UInt8.ofNat status.toNat }

def setProtocolStatus (b : EndRequest) (status : ProtocolStatus) : EndRequest :=
  { b with protocolStatus := status.toByte }

end EndRequest

/-! ## Records -/

/-- The size of the record that begins with these bytes. -/
def recordSize (s : Bytes) : Nat :=
  Header.size + (Header.ofBytes s).getContentLength + (Header.ofBytes s).getPaddingLength

/-- The first record, header, content and padding, once it is there. -/
def cutRecord (s : Bytes) : Option (Bytes × Bytes) :=
  if Header.size ≤ s.length ∧ recordSize s ≤ s.length then
    some (s.take (recordSize s), s.drop (recordSize s))
  else none

/-- The content of a record. -/
def content (record : Bytes) : Bytes :=
  (record.drop Header.size).take (Header.ofBytes record).getContentLength

theorem recordSize_append {s : Bytes} (hs : Header.size ≤ s.length) (t : Bytes) :
    recordSize (s ++ t) = recordSize s := by
  rw [recordSize, recordSize, Header.ofBytes_append hs]

theorem size_le_recordSize (s : Bytes) : Header.size ≤ recordSize s := by
  unfold recordSize
  omega

/-- The reader of a stream of records. -/
def records : Framing.Cutter UInt8 Bytes where
  cut := cutRecord
  progress := by
    intro s b rest h
    unfold cutRecord at h
    split at h
    · rename_i hs
      cases h
      have := size_le_recordSize s
      rw [List.length_drop]
      simp only [Header.size] at *
      omega
    · cases h
  stable := by
    intro s b rest h t
    unfold cutRecord at h ⊢
    split at h
    · rename_i hs
      cases h
      rw [recordSize_append hs.1, List.length_append, if_pos ⟨by omega, by omega⟩,
        List.take_append_of_le_length hs.2, List.drop_append_of_le_length hs.2]
    · cases h

/-- Bytes that are one record and nothing else. -/
structure IsRecord (s : Bytes) : Prop where
  header : Header.size ≤ s.length
  length : s.length = recordSize s

theorem IsRecord.writes {s : Bytes} (h : IsRecord s) : records.Writes id s := by
  intro t
  have hsize : recordSize (s ++ t) = s.length := by rw [recordSize_append h.header, h.length]
  change cutRecord (s ++ t) = some (s, t)
  have hheader := h.header
  rw [cutRecord, hsize, List.length_append, if_pos ⟨by omega, by omega⟩, List.take_left,
    List.drop_left]

/-- A header with its content and its padding is one record. -/
theorem isRecord_of_header {h : Header} {body : Bytes}
    (hlen : body.length = h.getContentLength + h.getPaddingLength) :
    IsRecord (h.toBytes ++ body) where
  header := by rw [List.length_append, Header.length_toBytes]; omega
  length := by
    rw [recordSize, Header.ofBytes_toBytes_append, List.length_append, Header.length_toBytes, hlen,
      Nat.add_assoc]

theorem content_of_header {h : Header} {body padding : Bytes}
    (hlen : body.length = h.getContentLength) :
    content (h.toBytes ++ (body ++ padding)) = body := by
  rw [content, Header.ofBytes_toBytes_append, ← hlen]
  exact List.take_left

end Protocol

end Simurga
