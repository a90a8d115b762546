import Simurga.Protocol
import Simurga.Lib.Memory
import Simurga.Lib.Tiling

/-!
# The transmit buffer

`Transceiver::Buffer` of `transceiver.hpp`: a list of chunks of memory with
an iterator to the one that is written, a position in the first one where
the next byte is read, and a queue of frames that says to which descriptor
the bytes go. Chunks that were read come back at the end of the list.

A `Buffer` is the list cut at `writeIt`. What it is for is an `Outbox`:
parcels that leave in the order they came, piece by piece. `outbox` reads
it off the memory, `Sound` is the invariant under which that is right, and
the operations on the buffer are those on the outbox.
-/

namespace Simurga

open Protocol

/-! ## The outbox -/

/-- Bytes for a connection, which is closed behind them or not. -/
structure Parcel where
  id : FullId
  data : Bytes
  closeFd : Bool
deriving DecidableEq

/-- `n` bytes of the first parcel are gone. -/
def Outbox.advance (n : Nat) : List Parcel → List Parcel
  | [] => []
  | p :: ps => if p.data.length ≤ n then ps else { p with data := p.data.drop n } :: ps

namespace Transceiver

/-- `Buffer::Frame`. -/
structure Frame where
  size : Nat
  closeFd : Bool
  id : FullId
deriving DecidableEq

/-- `Buffer::Chunk`: its memory and the offset of `end`. -/
structure Chunk where
  data : Nat → UInt8
  end_ : Nat := 0

namespace Chunk

/-- `Chunk::size`. -/
def size : Nat := 131072

/-- `end += n`. -/
def grow (c : Chunk) (n : Nat) : Chunk := { c with end_ := c.end_ + n }

/-- The bytes written to it. -/
def text (c : Chunk) : Bytes := Memory.load c.data 0 c.end_

end Chunk

/-- `Buffer::minBlockSize`. -/
def minBlockSize : Nat := 256

/-- `Transceiver::Buffer`: the chunks before `writeIt`, the one there and
those behind it. -/
structure Buffer where
  frames : List Frame := []
  full : List Chunk := []
  writeIt : Chunk
  free : List Chunk := []
  pRead : Nat := 0

namespace Buffer

/-- `*chunks.begin()`. -/
def first (b : Buffer) : Chunk :=
  match b.full with
  | [] => b.writeIt
  | c :: _ => c

/-- `requestWrite`: the size of the block, which is at `writeIt->end`. -/
def requestWrite (b : Buffer) (size : Nat) : Nat := min size (Chunk.size - b.writeIt.end_)

/-- What the memory of a block holds. -/
def block (b : Buffer) (pos n : Nat) : Bytes :=
  Memory.load b.writeIt.data (b.writeIt.end_ + pos) n

/-- Bytes put into a block. -/
def store (b : Buffer) (pos : Nat) (s : Bytes) : Buffer :=
  { b with writeIt :=
      { b.writeIt with data := Memory.store b.writeIt.data (b.writeIt.end_ + pos) s } }

/-- `secureWrite`; a new chunk has the memory `fresh`. -/
def secureWrite (fresh : Nat → UInt8) (b : Buffer) (size : Nat) (id : FullId) (kill : Bool) :
    Buffer :=
  let writeIt := b.writeIt.grow size
  let frames := b.frames ++ [{ size, closeFd := kill, id }]
  if Chunk.size - writeIt.end_ < minBlockSize then
    match b.free with
    | [] => { b with frames, full := b.full ++ [writeIt], writeIt := { data := fresh } }
    | c :: free => { b with frames, full := b.full ++ [writeIt], writeIt := c, free }
  else { b with frames, writeIt }

/-- `requestRead`: the bytes and their descriptor. -/
def requestRead (b : Buffer) : Option (Bytes × UInt16) :=
  b.frames.head?.map fun frame => (Memory.load b.first.data b.pRead frame.size, frame.id.fd)

/-- `freeRead` up to the frames: `pRead` is moved, and at the end of the
first chunk that one is emptied, or it is put behind the others, or given
up when there is a free chunk already. -/
def movePRead (b : Buffer) (pRead : Nat) : Buffer :=
  if b.first.end_ ≤ pRead then
    match b.full, b.free with
    | [], _ => { b with pRead := 0, writeIt := { b.writeIt with end_ := 0 } }
    | c :: full, [] => { b with pRead := 0, full, free := [{ c with end_ := 0 }] }
    | _ :: full, _ :: _ => { b with pRead := 0, full }
  else { b with pRead }

/-- `freeRead`, with the descriptor it closes. The size is at most that of
the first frame, or -1; undefined are a position before the chunk and the
front of an empty queue. -/
def freeRead (b : Buffer) (size : Int) : Option (Buffer × Option UInt16) :=
  if b.pRead + size < 0 then none
  else
    match b.frames with
    | [] => none
    | frame :: frames =>
        let b := b.movePRead (b.pRead + size).toNat
        let left := (frame.size - size).toNat
        if left = 0 then
          some ({ b with frames }, if frame.closeFd then some frame.id.fd else none)
        else some ({ b with frames := { frame with size := left } :: frames }, none)

/-- `empty`. -/
def empty (b : Buffer) : Bool := b.full.isEmpty && b.pRead == b.writeIt.end_

/-! ## The outbox of a buffer -/

/-- The unread bytes of chunks, of which the first is read from `pRead` on. -/
def textsFrom (pRead : Nat) : List Chunk → List Bytes
  | [] => []
  | c :: cs => Memory.load c.data pRead (c.end_ - pRead) :: cs.map Chunk.text

/-- The unread bytes, chunk by chunk. -/
def texts (b : Buffer) : List Bytes := textsFrom b.pRead (b.full ++ [b.writeIt])

/-- A text cut into the parcels of the frames. -/
def parcels : Bytes → List Frame → List Parcel
  | _, [] => []
  | s, frame :: frames =>
      { id := frame.id, data := s.take frame.size, closeFd := frame.closeFd }
        :: parcels (s.drop frame.size) frames

def outbox (b : Buffer) : List Parcel := parcels b.texts.flatten b.frames

/-- The chunks are where they belong. -/
structure Placed (b : Buffer) : Prop where
  /-- A chunk is left when a smallest block does not fit any more. -/
  full : ∀ c ∈ b.full, Chunk.size < c.end_ + minBlockSize ∧ c.end_ ≤ Chunk.size
  /-- There is always room for a smallest block. -/
  room : b.writeIt.end_ + minBlockSize ≤ Chunk.size
  free : ∀ c ∈ b.free, c.end_ = 0
  /-- Something is left of the first chunk, or the buffer is empty. -/
  read : b.pRead < b.first.end_ ∨ b.full = [] ∧ b.pRead = 0 ∧ b.writeIt.end_ = 0

/-- The invariant of a buffer. -/
structure Sound (b : Buffer) : Prop extends Placed b where
  /-- No frame crosses the end of a chunk. -/
  tiled : Tiling.Tiled (b.texts.map List.length) (b.frames.map Frame.size)

variable {b b' : Buffer} {fresh : Nat → UInt8} {id : FullId} {kill : Bool} {size n : Nat}

/-- The buffer of the constructor. -/
theorem Sound.init (data : Nat → UInt8) : Sound { writeIt := { data } } where
  full := by simp
  room := by simp [Chunk.size, minBlockSize]
  free := by simp
  read := .inr ⟨rfl, rfl, rfl⟩
  tiled := .block .nil

theorem first_of_nil (h : b.full = []) : b.first = b.writeIt := by rw [first, h]

theorem first_of_cons {c : Chunk} {full : List Chunk} (h : b.full = c :: full) : b.first = c := by
  rw [first, h]

theorem Placed.withFrames (h : b.Placed) (frames : List Frame) :
    Placed { b with frames := frames } where
  full := h.full
  room := h.room
  free := h.free
  read := h.read

/-! ## Texts and parcels -/

/-- More in the last chunk is more at the end of the last text. -/
theorem textsFrom_concat {pRead : Nat} {cs : List Chunk} {c : Chunk} (n : Nat)
    (hread : cs = [] → pRead ≤ c.end_) :
    ∃ ts t, textsFrom pRead (cs ++ [c]) = ts ++ [t]
      ∧ textsFrom pRead (cs ++ [c.grow n])
        = ts ++ [t ++ Memory.load c.data c.end_ n] := by
  cases cs with
  | nil =>
      have hle := hread rfl
      refine ⟨[], Memory.load c.data pRead (c.end_ - pRead), rfl, ?_⟩
      have hadd := Memory.load_add c.data pRead (c.end_ - pRead) n
      rw [show c.end_ - pRead + n = c.end_ + n - pRead from by omega,
        show pRead + (c.end_ - pRead) = c.end_ from by omega] at hadd
      simp [textsFrom, Chunk.grow, hadd]
  | cons c' cs =>
      refine ⟨textsFrom pRead (c' :: cs), c.text, ?_, ?_⟩
      · simp [textsFrom]
      · simp [textsFrom, Chunk.text, Chunk.grow, Memory.load_add]

theorem length_texts_flatten : b.texts.flatten.length = (b.texts.map List.length).sum :=
  List.length_flatten

theorem parcels_append {s t : Bytes} {frames : List Frame} {frame : Frame}
    (hs : s.length = (frames.map Frame.size).sum) (ht : t.length = frame.size) :
    parcels (s ++ t) (frames ++ [frame])
      = parcels s frames ++ [{ id := frame.id, data := t, closeFd := frame.closeFd }] := by
  induction frames generalizing s with
  | nil =>
      obtain rfl : s = [] := List.eq_nil_of_length_eq_zero hs
      simp [parcels, ← ht]
  | cons f frames ih =>
      rw [List.map_cons, List.sum_cons] at hs
      rw [List.cons_append, parcels, parcels, List.take_append_of_le_length (by omega),
        List.drop_append_of_le_length (by omega), ih (by rw [List.length_drop]; omega),
        List.cons_append]

/-- The parcels have all of the text. -/
theorem length_parcels {s : Bytes} {frames : List Frame}
    (hs : s.length = (frames.map Frame.size).sum) :
    ((parcels s frames).map fun p => p.data.length).sum = s.length := by
  induction frames generalizing s with
  | nil => simpa [parcels] using hs.symm
  | cons frame frames ih =>
      rw [List.map_cons, List.sum_cons] at hs
      rw [parcels, List.map_cons, List.sum_cons, ih (by rw [List.length_drop]; omega),
        List.length_take, List.length_drop]
      omega

/-! ## Writing -/

@[simp] theorem store_full {pos : Nat} {s : Bytes} : (b.store pos s).full = b.full := rfl

@[simp] theorem store_pRead {pos : Nat} {s : Bytes} : (b.store pos s).pRead = b.pRead := rfl

@[simp] theorem store_end {pos : Nat} {s : Bytes} :
    (b.store pos s).writeIt.end_ = b.writeIt.end_ := rfl

@[simp] theorem store_data {pos : Nat} {s : Bytes} :
    (b.store pos s).writeIt.data = Memory.store b.writeIt.data (b.writeIt.end_ + pos) s := rfl

/-- A buffer says nothing yet about what is stored into a block. -/
theorem texts_store {pos : Nat} {s : Bytes} : (b.store pos s).texts = b.texts := by
  have hload : ∀ from_ n, from_ + n ≤ b.writeIt.end_ →
      Memory.load (Memory.store b.writeIt.data (b.writeIt.end_ + pos) s) from_ n
        = Memory.load b.writeIt.data from_ n :=
    fun from_ n h => Memory.load_store_before (by omega)
  unfold texts
  rw [store_full, store_pRead]
  cases b.full with
  | nil =>
      simp only [List.nil_append, textsFrom, store_end, store_data, List.map_nil]
      rcases Nat.le_total b.pRead b.writeIt.end_ with hle | hle
      · rw [hload b.pRead (b.writeIt.end_ - b.pRead) (by omega)]
      · rw [show b.writeIt.end_ - b.pRead = 0 from by omega, Memory.load_zero, Memory.load_zero]
  | cons c cs =>
      simp [textsFrom, Chunk.text, hload 0 b.writeIt.end_ (by omega)]

theorem outbox_store {pos : Nat} {s : Bytes} : (b.store pos s).outbox = b.outbox := by
  rw [outbox, texts_store]
  rfl

theorem first_store_end {pos : Nat} {s : Bytes} : (b.store pos s).first.end_ = b.first.end_ := by
  unfold first
  rw [store_full]
  cases b.full <;> rfl

theorem Sound.store (h : b.Sound) (pos : Nat) (s : Bytes) : (b.store pos s).Sound where
  full := h.full
  room := h.room
  free := h.free
  read := by
    rw [first_store_end]
    exact h.read
  tiled := by
    rw [texts_store]
    exact h.tiled

/-- A smallest block is always given. -/
theorem Sound.min_le_requestWrite (h : b.Sound) (size : Nat) :
    min size minBlockSize ≤ b.requestWrite size := by
  have := h.room
  unfold requestWrite
  omega

theorem Placed.pRead_le (h : b.Placed) : b.pRead ≤ b.first.end_ := by
  rcases h.read with hlt | ⟨hfull, hread, -⟩
  · exact Nat.le_of_lt hlt
  · omega

/-- The frame is queued and the chunk has grown; when no smallest block
fits behind it any more, an empty chunk is next. -/
theorem secureWrite_cases (h : b.Sound) (fresh : Nat → UInt8) (size : Nat) (id : FullId)
    (kill : Bool) :
    minBlockSize ≤ Chunk.size - (b.writeIt.end_ + size)
        ∧ b.secureWrite fresh size id kill
          = { b with frames := b.frames ++ [{ size, closeFd := kill, id }]
                     writeIt := b.writeIt.grow size }
      ∨ Chunk.size - (b.writeIt.end_ + size) < minBlockSize
        ∧ ∃ c free, c.end_ = 0 ∧ (∀ c' ∈ free, c'.end_ = 0)
          ∧ b.secureWrite fresh size id kill
            = { b with frames := b.frames ++ [{ size, closeFd := kill, id }]
                       full := b.full ++ [b.writeIt.grow size], writeIt := c, free } := by
  have hfree := h.free
  have hend : (b.writeIt.grow size).end_ = b.writeIt.end_ + size := rfl
  unfold secureWrite
  dsimp only
  rw [hend]
  split
  · rename_i hfit
    cases hb : b.free with
    | nil => exact .inr ⟨hfit, { data := fresh }, [], rfl, by simp, rfl⟩
    | cons c free =>
        rw [hb] at hfree
        exact .inr ⟨hfit, c, free, hfree c (List.mem_cons_self ..),
          fun c' hc' => hfree c' (List.mem_cons_of_mem _ hc'), rfl⟩
  · exact .inl ⟨by omega, rfl⟩

theorem length_block (pos n : Nat) : (b.block pos n).length = n := Memory.length_load

/-- A block that begins with what was stored. -/
theorem block_store (b : Buffer) (pos : Nat) (s : Bytes) (n : Nat) :
    (b.store pos s).block pos (s.length + n) = s ++ b.block (pos + s.length) n := by
  unfold block
  rw [store_end, store_data, Memory.load_add, Memory.load_store,
    Memory.load_store_after (Nat.le_refl _), Nat.add_assoc]

/-- A block that ends with what was stored. -/
theorem block_store_behind (b : Buffer) (pos : Nat) (s : Bytes) :
    (b.store pos s).block 0 (pos + s.length) = b.block 0 pos ++ s := by
  unfold block
  rw [store_end, store_data, Memory.load_add, Nat.add_zero, Memory.load_store,
    Memory.load_store_before (Nat.le_refl _)]

theorem textsFrom_empty {pRead : Nat} {cs : List Chunk} {c : Chunk} (hcs : cs ≠ [])
    (hc : c.end_ = 0) : textsFrom pRead (cs ++ [c]) = textsFrom pRead cs ++ [[]] := by
  cases cs with
  | nil => exact absurd rfl hcs
  | cons c' cs => simp [textsFrom, Chunk.text, hc]

/-- What `secureWrite` leaves: the last text has grown, and an empty one
may have been begun behind it. -/
theorem texts_secureWrite (h : b.Sound) (fresh : Nat → UInt8) (size : Nat) (id : FullId)
    (kill : Bool) :
    ∃ ts t rest, b.texts = ts ++ [t] ∧ (rest = [] ∨ rest = [[]])
      ∧ (b.secureWrite fresh size id kill).texts = ts ++ [t ++ b.block 0 size] ++ rest := by
  have hread : b.full = [] → b.pRead ≤ b.writeIt.end_ := by
    intro hfull
    have := h.pRead_le
    rwa [first, hfull] at this
  obtain ⟨ts, t, hts, hts'⟩ := textsFrom_concat size hread
  rcases secureWrite_cases h fresh size id kill with
    ⟨-, hb⟩ | ⟨-, c, free, hc, -, hb⟩
  · refine ⟨ts, t, [], hts, .inl rfl, ?_⟩
    rw [hb, List.append_nil]
    exact hts'
  · refine ⟨ts, t, [[]], hts, .inr rfl, ?_⟩
    rw [hb, texts, textsFrom_empty (by simp) hc]
    exact congrArg (· ++ [[]]) hts'

theorem frames_secureWrite (h : b.Sound) :
    (b.secureWrite fresh size id kill).frames = b.frames ++ [{ size, closeFd := kill, id }] := by
  rcases secureWrite_cases h fresh size id kill with
    ⟨-, hb⟩ | ⟨-, _, _, -, -, hb⟩ <;> rw [hb]

/-- Securing a block puts it into the outbox. -/
theorem outbox_secureWrite (h : b.Sound) :
    (b.secureWrite fresh size id kill).outbox
      = b.outbox ++ [{ id, data := b.block 0 size, closeFd := kill }] := by
  obtain ⟨ts, t, rest, hts, hrest, hts'⟩ := texts_secureWrite h fresh size id kill
  have hflat : (b.secureWrite fresh size id kill).texts.flatten
      = b.texts.flatten ++ b.block 0 size := by
    rw [hts', hts]
    rcases hrest with rfl | rfl <;> simp
  rw [outbox, hflat, frames_secureWrite h]
  refine parcels_append ?_ (length_block ..)
  rw [length_texts_flatten, h.tiled.sum_eq]

theorem Sound.secureWrite (h : b.Sound) (hpos : 0 < size)
    (hsize : b.writeIt.end_ + size ≤ Chunk.size) :
    (b.secureWrite fresh size id kill).Sound := by
  have htiled : Tiling.Tiled ((b.secureWrite fresh size id kill).texts.map List.length)
      ((b.secureWrite fresh size id kill).frames.map Frame.size) := by
    obtain ⟨ts, t, rest, hts, hrest, hts'⟩ := texts_secureWrite h fresh size id kill
    have hold := h.tiled
    rw [hts, List.map_append] at hold
    have hnew := hold.concat_tile hpos
    rw [hts', frames_secureWrite h]
    rcases hrest with rfl | rfl
    · simpa [length_block] using hnew
    · simpa [length_block] using hnew.concat_block
  -- the first chunk is the one that has grown, or another one
  have hfirst : ∀ c : Chunk, b.pRead < ((b.full ++ [b.writeIt.grow size]).headD c).end_ := by
    intro c
    have hread := h.pRead_le
    have hlt := h.read
    unfold first at hread hlt
    cases hb : b.full with
    | nil =>
        rw [hb] at hread
        simp only [List.nil_append, List.headD_cons, Chunk.grow]
        dsimp only at hread
        omega
    | cons c full =>
        rw [hb] at hlt
        simpa using hlt
  rcases secureWrite_cases h fresh size id kill with
    ⟨hfit, hb⟩ | ⟨hfit, c, free, hc, hfree, hb⟩
  · rw [hb] at htiled ⊢
    refine { full := h.full, room := ?_, free := h.free, read := .inl ?_, tiled := htiled }
    · change b.writeIt.end_ + size + minBlockSize ≤ Chunk.size
      omega
    · have := hfirst (b.writeIt.grow size)
      unfold first
      cases hfull : b.full <;> simpa [hfull] using this
  · rw [hb] at htiled ⊢
    refine { full := ?_, room := ?_, free := hfree, read := .inl ?_, tiled := htiled }
    · intro c' hc'
      rcases List.mem_append.mp hc' with hc' | hc'
      · exact h.full c' hc'
      · obtain rfl := List.mem_singleton.mp hc'
        have hend : (b.writeIt.grow size).end_ = b.writeIt.end_ + size := rfl
        rw [hend]
        exact ⟨by omega, hsize⟩
    · dsimp only
      rw [hc]
      simp [Chunk.size, minBlockSize]
    · have := hfirst c
      unfold first
      cases hfull : b.full <;> simpa [hfull] using this

/-! ## Reading -/

theorem texts_eq_cons :
    b.texts = Memory.load b.first.data b.pRead (b.first.end_ - b.pRead)
      :: ((b.full ++ [b.writeIt]).tail.map Chunk.text) := by
  unfold texts first
  cases b.full <;> rfl

theorem spans_eq_cons :
    b.texts.map List.length
      = (b.first.end_ - b.pRead) :: ((b.full ++ [b.writeIt]).tail.map fun c => c.text.length) := by
  rw [texts_eq_cons, List.map_cons, Memory.length_load, List.map_map]
  rfl

/-- The first frame lies in the first chunk. -/
theorem Sound.front (h : b.Sound) {frame : Frame} {frames : List Frame}
    (hb : b.frames = frame :: frames) :
    0 < frame.size ∧ b.pRead + frame.size ≤ b.first.end_ := by
  have htiled := h.tiled
  rw [hb, List.map_cons, spans_eq_cons] at htiled
  have hpos : 0 < frame.size := htiled.pos _ (List.mem_cons_self ..)
  have hlt : 0 < b.first.end_ - b.pRead := by
    rcases h.read with hlt | ⟨hfull, hread, hend⟩
    · omega
    · rw [hfull, first, hfull] at htiled
      rw [hend, Nat.zero_sub] at htiled
      cases htiled.tail
  have := htiled.first_le hlt
  exact ⟨hpos, by omega⟩

theorem load_first {n : Nat} (h : b.pRead + n ≤ b.first.end_) :
    Memory.load b.first.data b.pRead n = b.texts.flatten.take n := by
  rw [texts_eq_cons, List.flatten_cons, List.take_append_of_le_length
    (by rw [Memory.length_load]; omega), Memory.take_load (by omega)]

/-- A block to send is the first parcel. -/
theorem requestRead_eq (h : b.Sound) :
    b.requestRead = b.outbox.head?.map fun p => (p.data, p.id.fd) := by
  unfold requestRead outbox
  cases hb : b.frames with
  | nil => rfl
  | cons frame frames =>
      rw [parcels, List.head?_cons, List.head?_cons, Option.map_some, Option.map_some,
        load_first (h.front hb).2]

/-- What a moved position leaves of the texts. -/
theorem texts_movePRead (h : b.Placed) {k : Nat} (hk : b.pRead + k ≤ b.first.end_) :
    ∃ t rest, b.texts = t :: rest ∧ k ≤ t.length
      ∧ ((b.movePRead (b.pRead + k)).texts = t.drop k :: rest
        ∨ t.length = k ∧ (b.movePRead (b.pRead + k)).texts = rest) := by
  refine ⟨_, _, texts_eq_cons, by rw [Memory.length_load]; omega, ?_⟩
  rw [Memory.drop_load (by omega), Memory.length_load]
  unfold movePRead
  split
  · rename_i hend
    have hread := h.pRead_le
    cases hfull : b.full with
    | nil =>
        left
        rw [first_of_nil hfull] at hk hend hread ⊢
        rw [show b.writeIt.end_ - b.pRead - k = 0 from by omega, Memory.load_zero]
        simp [texts, textsFrom]
    | cons c full =>
        right
        rw [first_of_cons hfull] at hk hend hread ⊢
        refine ⟨by omega, ?_⟩
        have htexts : ∀ cs : List Chunk, textsFrom 0 cs = cs.map Chunk.text := by
          intro cs
          cases cs <;> rfl
        cases b.free <;> exact htexts _
  · left
    unfold texts
    cases hfull : b.full with
    | nil =>
        rw [first_of_nil hfull, Nat.sub_sub]
        rfl
    | cons c full =>
        rw [first_of_cons hfull, Nat.sub_sub]
        rfl

theorem Placed.movePRead (h : b.Placed) (pRead : Nat) : (b.movePRead pRead).Placed := by
  unfold Buffer.movePRead
  split
  · have hfull := h.full
    -- what was full is not empty
    have hread : ∀ (frames : List Frame) (full : List Chunk) (free : List Chunk),
        (∀ c ∈ full, Chunk.size < c.end_ + minBlockSize ∧ c.end_ ≤ Chunk.size) →
          (0 < (Buffer.first ⟨frames, full, b.writeIt, free, 0⟩).end_
            ∨ full = [] ∧ 0 = 0 ∧ b.writeIt.end_ = 0) := by
      intro frames full free hfull
      cases full with
      | nil =>
          rcases Nat.eq_zero_or_pos b.writeIt.end_ with hzero | hpos
          · exact .inr ⟨rfl, rfl, hzero⟩
          · exact .inl hpos
      | cons c full =>
          have := (hfull c (List.mem_cons_self ..)).1
          simp only [Chunk.size, minBlockSize] at this
          exact .inl (by simp only [first]; omega)
    cases hb : b.full with
    | nil =>
        exact { full := by simp, room := by simp [Chunk.size, minBlockSize], free := h.free
                read := .inr ⟨rfl, rfl, rfl⟩ }
    | cons c full =>
        rw [hb] at hfull
        have hrest : ∀ c' ∈ full, Chunk.size < c'.end_ + minBlockSize ∧ c'.end_ ≤ Chunk.size :=
          fun c' hc' => hfull c' (List.mem_cons_of_mem _ hc')
        cases hfree : b.free with
        | nil => exact { full := hrest, room := h.room, free := by simp, read := hread _ _ _ hrest }
        | cons c' free =>
            have hnext := h.free
            rw [hfree] at hnext
            exact { full := hrest, room := h.room, free := hnext, read := hread _ _ _ hrest }
  · rename_i hend
    refine { full := h.full, room := h.room, free := h.free, read := .inl ?_ }
    unfold first at hend ⊢
    cases hb : b.full with
    | nil => rw [hb] at hend; dsimp only at hend ⊢; omega
    | cons c full => rw [hb] at hend; dsimp only at hend ⊢; omega

theorem parcels_cons_advance {s : Bytes} {frame : Frame} {frames : List Frame} {k : Nat}
    (hs : frame.size ≤ s.length) (hk : k < frame.size) :
    parcels (s.drop k) ({ frame with size := frame.size - k } :: frames)
      = Outbox.advance k (parcels s (frame :: frames)) := by
  rw [parcels, parcels, Outbox.advance, if_neg (by rw [List.length_take]; omega), List.drop_drop,
    Nat.add_sub_cancel' (Nat.le_of_lt hk), List.drop_take]

/-- There is at most one free chunk. -/
theorem freeRead_free {sent : Int} {closed : Option UInt16}
    (h : b.freeRead sent = some (b', closed)) (hfree : b.free.length ≤ 1) : b'.free.length ≤ 1 := by
  have hmove : ∀ pRead, (b.movePRead pRead).free.length ≤ 1 := by
    intro pRead
    unfold movePRead
    split
    · split
      · exact hfree
      · exact Nat.le_refl 1
      · exact hfree
    · exact hfree
  unfold freeRead at h
  split at h
  · cases h
  · split at h
    · cases h
    · dsimp only at h
      split at h <;> cases h <;> exact hmove _

/-- Freeing what was sent of the first frame is what the outbox does; a
frame that is done closes its connection when it says so. -/
theorem freeRead_eq (h : b.Sound) {frame : Frame} {frames : List Frame}
    (hb : b.frames = frame :: frames) {k : Nat} (hk : k ≤ frame.size) :
    ∃ b', b.freeRead k
        = some (b', if k = frame.size ∧ frame.closeFd = true then some frame.id.fd else none)
      ∧ b'.Sound ∧ b'.outbox = Outbox.advance k b.outbox := by
  obtain ⟨hpos, hfront⟩ := h.front hb
  obtain ⟨t, rest, htexts, hkt, hmoved⟩ := texts_movePRead h.toPlaced (k := k) (by omega)
  have hplaced := h.toPlaced.movePRead (b.pRead + k)
  have htiled := h.tiled
  rw [hb, List.map_cons, htexts, List.map_cons] at htiled
  have hsize : frame.size ≤ t.length := by
    have := spans_eq_cons (b := b)
    rw [htexts, List.map_cons, List.cons.injEq] at this
    omega
  have hflat : (b.movePRead (b.pRead + k)).texts.flatten = b.texts.flatten.drop k := by
    rw [htexts, List.flatten_cons, List.drop_append_of_le_length hkt]
    rcases hmoved with hmoved | ⟨hlen, hmoved⟩
    · rw [hmoved, List.flatten_cons]
    · rw [hmoved, List.drop_of_length_le (by omega), List.nil_append]
  -- the blocks after the move, whatever the tiles are
  have hspans : ∀ sizes, Tiling.Tiled ((t.length - k) :: rest.map List.length) sizes →
      Tiling.Tiled ((b.movePRead (b.pRead + k)).texts.map List.length) sizes := by
    intro sizes hs
    rcases hmoved with hmoved | ⟨hlen, hmoved⟩
    · rw [hmoved, List.map_cons, List.length_drop]
      exact hs
    · rw [hmoved]
      rw [hlen, Nat.sub_self] at hs
      exact hs.tail
  have hlen : frame.size ≤ b.texts.flatten.length := by
    rw [htexts, List.flatten_cons, List.length_append]
    omega
  unfold freeRead
  rw [if_neg (by omega), hb]
  dsimp only
  rw [show ((b.pRead : Int) + (k : Int)).toNat = b.pRead + k from by omega,
    show ((frame.size : Int) - (k : Int)).toNat = frame.size - k from by omega]
  rcases Nat.lt_or_eq_of_le hk with hlt | rfl
  · rw [if_neg (by omega), if_neg (by omega)]
    refine ⟨{ b.movePRead (b.pRead + k) with
        frames := { frame with size := frame.size - k } :: frames }, rfl,
      ⟨hplaced.withFrames _, hspans _ (htiled.shrink (by omega) hlt)⟩, ?_⟩
    change parcels (b.movePRead (b.pRead + k)).texts.flatten _ = _
    rw [hflat, outbox, hb]
    exact parcels_cons_advance hlen hlt
  · rw [if_pos (Nat.sub_self _)]
    refine ⟨{ b.movePRead (b.pRead + frame.size) with frames }, ?_,
      ⟨hplaced.withFrames _, hspans _ (htiled.pop (by omega))⟩, ?_⟩
    · simp
    · change parcels (b.movePRead (b.pRead + frame.size)).texts.flatten _ = _
      rw [hflat, outbox, hb, parcels, Outbox.advance, if_pos (by rw [List.length_take]; omega)]

/-- The same for the first parcel, which is a whole frame. -/
theorem freeRead_outbox (h : b.Sound) {p : Parcel} {ps : List Parcel} (hb : b.outbox = p :: ps)
    {k : Nat} (hk : k ≤ p.data.length) :
    ∃ b', b.freeRead k
        = some (b', if k = p.data.length ∧ p.closeFd = true then some p.id.fd else none)
      ∧ b'.Sound ∧ b'.outbox = Outbox.advance k b.outbox := by
  cases hframes : b.frames with
  | nil => simp [outbox, hframes, parcels] at hb
  | cons frame frames =>
      have hfront := load_first (h.front hframes).2
      rw [outbox, hframes, parcels, ← hfront, List.cons.injEq] at hb
      obtain ⟨rfl, -⟩ := hb
      rw [Memory.length_load] at hk ⊢
      exact freeRead_eq h hframes hk

theorem Sound.outbox_pos (h : b.Sound) {p : Parcel} (hp : b.outbox.head? = some p) :
    p.data ≠ [] := by
  cases hframes : b.frames with
  | nil => simp [outbox, hframes, parcels] at hp
  | cons frame frames =>
      have hfront := h.front hframes
      rw [outbox, hframes, parcels, ← load_first hfront.2, List.head?_cons, Option.some.injEq] at hp
      rw [← hp]
      exact List.ne_nil_of_length_pos (by rw [Memory.length_load]; exact hfront.1)

theorem length_outbox (b : Buffer) : b.outbox.length = b.frames.length := by
  have hlen : ∀ (s : Bytes) (frames : List Frame), (parcels s frames).length = frames.length := by
    intro s frames
    induction frames generalizing s with
    | nil => rfl
    | cons frame frames ih => rw [parcels, List.length_cons, ih, List.length_cons]
  exact hlen _ _

/-- `empty` says that nothing is left to send. -/
theorem empty_iff (h : b.Sound) : b.empty = true ↔ b.outbox = [] := by
  have hframes : b.outbox = [] ↔ b.frames = [] := by
    rw [← List.length_eq_zero_iff, length_outbox, List.length_eq_zero_iff]
  rw [hframes]
  unfold empty
  rw [Bool.and_eq_true, List.isEmpty_iff, beq_iff_eq]
  constructor
  · rintro ⟨hfull, hread⟩
    cases hb : b.frames with
    | nil => rfl
    | cons frame frames =>
        obtain ⟨hpos, hfront⟩ := h.front hb
        rw [first, hfull] at hfront
        dsimp only at hfront
        omega
  · intro hb
    have htiled := h.tiled
    rw [hb, List.map_nil, spans_eq_cons] at htiled
    have hzero := htiled.of_nil _ (List.mem_cons_self ..)
    rcases h.read with hlt | ⟨hfull, hread, hend⟩
    · omega
    · exact ⟨hfull, by omega⟩

end Buffer

end Transceiver

end Simurga
