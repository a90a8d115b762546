import Simurga.UrlEncoded

/-!
# Multipart forms

`Environment::parsePostsMultipart`: one loop over the buffer that looks for
the headers of a part, then for the boundary behind its body. It compares
as many bytes of the boundary as the size of `boundarySize` less one, which
are seven, so that a shorter boundary is read behind its end; with a longer
one the loop always comes to its end (`isSome_multipartLoop`).
-/

namespace Simurga

open Memory

/-! ## The loop -/

inductive ParseState where
  | header | name | filename | contentType | body
deriving DecidableEq

/-- The variables of the loop, with offsets in the buffer for pointers and
no size for the size -1. `bodySize` has none but where a body ends. -/
structure Multipart where
  pPostBuffer : Nat
  contentTypeStart : Nat := 0
  contentTypeSize : Option Nat := none
  nameStart : Nat := 0
  nameSize : Option Nat := none
  filenameStart : Nat := 0
  filenameSize : Option Nat := none
  bodyStart : Nat := 0
  parseState : ParseState := .header
  posts : Posts

namespace Multipart

def cName : Bytes := bytes "name=\""
def cFilename : Bytes := bytes "filename=\""
def cContentType : Bytes := bytes "Content-Type: "
def cBodyStart : Bytes := bytes "\r\n\r\n"

/-- `minPostBufferSize`. -/
def minPostBufferSize (contentLength : Nat) (s : Multipart) (size : Nat) : Nat :=
  min size (contentLength - s.pPostBuffer)

/-- The size of the text, if the buffer goes on with it, or ends in it. -/
def matchSize (mem : Nat → UInt8) (contentLength : Nat) (s : Multipart) (text : Bytes) : Option Nat :=
  let size := s.minPostBufferSize contentLength text.length
  if load mem s.pPostBuffer size = text.take size then some size else none

/-- The state HEADER. -/
def header (mem : Nat → UInt8) (contentLength : Nat) (s : Multipart) : Multipart :=
  match s.nameSize, s.matchSize mem contentLength cName with
  | none, some size =>
      { s with
        pPostBuffer := s.pPostBuffer + (size - 1)
        nameStart := s.pPostBuffer + size
        parseState := .name }
  | _, _ =>
  match s.filenameSize, s.matchSize mem contentLength cFilename with
  | none, some size =>
      { s with
        pPostBuffer := s.pPostBuffer + (size - 1)
        filenameStart := s.pPostBuffer + size
        parseState := .filename }
  | _, _ =>
  match s.contentTypeSize, s.matchSize mem contentLength cContentType with
  | none, some size =>
      { s with
        pPostBuffer := s.pPostBuffer + (size - 1)
        contentTypeStart := s.pPostBuffer + size
        parseState := .contentType }
  | _, _ =>
  match s.matchSize mem contentLength cBodyStart with
  | some size =>
      { s with
        pPostBuffer := s.pPostBuffer + (size - 1)
        bodyStart := s.pPostBuffer + size
        parseState := .body }
  | none => s

/-- The size of a body in front of a boundary, without its line end. -/
def bodySize (mem : Nat → UInt8) (s : Multipart) : Nat :=
  let size := s.pPostBuffer - s.bodyStart - 2
  if 2 ≤ size ∧ mem (s.bodyStart + size - 1) = '\n'.toUInt8
      ∧ mem (s.bodyStart + size - 2) = '\r'.toUInt8 then size - 2
  else size

/-- The part that has ended, put into `posts`. -/
def setPart (mem : Nat → UInt8) (s : Multipart) (nameSize : Nat) : Posts :=
  let name := load mem s.nameStart nameSize
  let body := load mem s.bodyStart (s.bodySize mem)
  match s.contentTypeSize with
  | some contentTypeSize =>
      let post := (s.posts name).getD { type := .file }
      Function.update s.posts name (some
        { type := .file
          value := (s.filenameSize.map (load mem s.filenameStart)).getD post.value
          contentType := load mem s.contentTypeStart contentTypeSize
          -- nothing is copied of an empty body, and the data of an earlier
          -- part stay with a size of 0
          data := body })
  | none => s.posts.setForm name body

/-- One turn of the loop up to its `++pPostBuffer`; none if the boundary is
read behind its end. -/
def turn (boundary : Bytes) (mem : Nat → UInt8) (contentLength : Nat) (s : Multipart) :
    Option Multipart :=
  match s.parseState with
  | .header => some (s.header mem contentLength)
  | .name =>
      if mem s.pPostBuffer = '"'.toUInt8 then
        some { s with nameSize := some (s.pPostBuffer - s.nameStart), parseState := .header }
      else some s
  | .filename =>
      if mem s.pPostBuffer = '"'.toUInt8 then
        some { s with filenameSize := some (s.pPostBuffer - s.filenameStart), parseState := .header }
      else some s
  | .contentType =>
      if mem s.pPostBuffer = '\r'.toUInt8 ∨ mem s.pPostBuffer = '\n'.toUInt8 then
        some { s with
          contentTypeSize := some (s.pPostBuffer - s.contentTypeStart)
          pPostBuffer := s.pPostBuffer - 1
          parseState := .header }
      else some s
  | .body =>
      -- `sizeof(boundarySize)-1`
      let size := s.minPostBufferSize contentLength 7
      if boundary.length < size then none
      else if load mem s.pPostBuffer size = boundary.take size then
        some
          { pPostBuffer := s.pPostBuffer + size
            posts := (s.nameSize.map (s.setPart mem)).getD s.posts }
      else some s

end Multipart

/-- The loop with as many turns as it may take: a turn that goes back to the
end of a content type is followed by one that does not. -/
def multipartLoop (boundary : Bytes) (mem : Nat → UInt8) (contentLength : Nat) :
    Nat → Multipart → Option Posts
  | 0, _ => none
  | n + 1, s =>
      if s.pPostBuffer < contentLength then
        (s.turn boundary mem contentLength).bind fun s =>
          multipartLoop boundary mem contentLength n { s with pPostBuffer := s.pPostBuffer + 1 }
      else some s.posts

/-- `Environment::parsePostsMultipart` on the buffer. -/
def parsePostsMultipart (boundary : Bytes) (mem : Nat → UInt8) (contentLength : Nat) (posts : Posts) :
    Option Posts :=
  multipartLoop boundary mem contentLength (2 * contentLength + 2)
    { pPostBuffer := boundary.length + 2, posts }

/-! ## Its end -/

namespace Multipart

variable {boundary : Bytes} {mem : Nat → UInt8} {contentLength : Nat} {s s' : Multipart}

/-- What is left to do: two for each byte, and one for a content type. -/
def left (contentLength : Nat) (s : Multipart) : Nat :=
  2 * (contentLength - s.pPostBuffer) + if s.parseState = .contentType then 1 else 0

/-- The pointer behind the turn, where only a content type stays in place. -/
structure Advances (s s' : Multipart) : Prop where
  pos : s.pPostBuffer ≤ s'.pPostBuffer + 1
  /-- The turn that goes back one byte ends a content type. -/
  back : s'.pPostBuffer < s.pPostBuffer → s.parseState = .contentType ∧ s'.parseState = .header

theorem Advances.left_lt (h : Advances s s') (hlt : s.pPostBuffer < contentLength) :
    left contentLength { s' with pPostBuffer := s'.pPostBuffer + 1 } < left contentLength s := by
  have hpos := h.pos
  unfold left
  dsimp only
  by_cases hback : s'.pPostBuffer < s.pPostBuffer
  · obtain ⟨htype, hheader⟩ := h.back hback
    rw [htype, hheader, if_pos rfl, if_neg nofun]
    omega
  · split <;> split <;> omega

theorem advances_header : Advances s (s.header mem contentLength) := by
  unfold header
  split
  · exact ⟨by dsimp only; omega, fun h => by dsimp only at h; omega⟩
  split
  · exact ⟨by dsimp only; omega, fun h => by dsimp only at h; omega⟩
  split
  · exact ⟨by dsimp only; omega, fun h => by dsimp only at h; omega⟩
  split
  · exact ⟨by dsimp only; omega, fun h => by dsimp only at h; omega⟩
  · exact ⟨Nat.le_succ _, fun h => absurd h (Nat.lt_irrefl _)⟩

theorem advances_turn (h : s.turn boundary mem contentLength = some s') : Advances s s' := by
  have hstays : ∀ {s' : Multipart}, s'.pPostBuffer = s.pPostBuffer → Advances s s' :=
    fun heq => ⟨by omega, fun h => by omega⟩
  unfold turn at h
  split at h
  · cases h
    exact advances_header
  · split at h <;> cases h <;> exact hstays rfl
  · split at h <;> cases h <;> exact hstays rfl
  · rename_i htype
    split at h
    · cases h
      exact ⟨by dsimp only; omega, fun _ => ⟨htype, rfl⟩⟩
    · cases h
      exact hstays rfl
  · dsimp only at h
    split at h
    · cases h
    · split at h
      · cases h
        exact ⟨by dsimp only; omega, fun h => by dsimp only at h; omega⟩
      · cases h
        exact hstays rfl

/-- A boundary of seven bytes is long enough. -/
theorem isSome_turn (hboundary : 7 ≤ boundary.length) :
    (s.turn boundary mem contentLength).isSome := by
  unfold turn
  split
  · rfl
  · split <;> rfl
  · split <;> rfl
  · split <;> rfl
  · have hsize : ¬ boundary.length < s.minPostBufferSize contentLength 7 := by
      unfold minPostBufferSize
      omega
    dsimp only
    rw [if_neg hsize]
    split <;> rfl

end Multipart

variable {boundary : Bytes} {mem : Nat → UInt8} {contentLength n : Nat} {s : Multipart}

theorem isSome_multipartLoop (hboundary : 7 ≤ boundary.length)
    (hn : s.left contentLength < n) : (multipartLoop boundary mem contentLength n s).isSome := by
  induction n generalizing s with
  | zero => omega
  | succ n ih =>
      rw [multipartLoop]
      split
      · rename_i hlt
        have hsome : (s.turn boundary mem contentLength).isSome := Multipart.isSome_turn hboundary
        obtain ⟨s', hturn⟩ := Option.isSome_iff_exists.mp hsome
        have hleft := (Multipart.advances_turn hturn).left_lt hlt
        rw [hturn, Option.bind_some]
        exact ih (by omega)
      · rfl

theorem isSome_parsePostsMultipart (hboundary : 7 ≤ boundary.length) (posts : Posts) :
    (parsePostsMultipart boundary mem contentLength posts).isSome := by
  refine isSome_multipartLoop hboundary ?_
  unfold Multipart.left
  dsimp only
  rw [if_neg nofun]
  omega

end Simurga
