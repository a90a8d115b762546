import Simurga.Multipart
import Simurga.Params
import Simurga.Lib.Decimal

/-!
# The environment of a request

`Environment::fill` on the bytes of a PARAMS record, `fillPostBuffer` on
those of an IN record, and what `handler` parses at the end of the input
(`http.cpp`). All three may leave the memory they are given, which is
undefined, and `fill` may throw: it looks for the boundary in a
CONTENT_TYPE when `data` stands behind the value already, so that the
search goes on for as many bytes as the value has, and a `=` found there
makes the size of the boundary negative.

A byte that is read past the end and decides nothing is left out: behind an
empty number, an empty PATH_INFO and an empty form.

`fill` reads each record alone. It comes to a value exactly on records that
consist of whole pairs in which no such search goes astray
(`fill_eq_value_iff`), although the pairs of a request are one stream that
may be cut anywhere.
-/

namespace Simurga

open Protocol

/-! ## Calls that may throw, or leave their memory -/

/-- How a call ends; an exception leaves something behind, too. -/
inductive Parsed (α : Type) where
  | value (a : α)
  | thrown (left : α)
  | undefined

namespace Parsed

variable {α β : Type}

def bind : Parsed α → (α → Parsed α) → Parsed α
  | .value a, f => f a
  | .thrown left, _ => .thrown left
  | .undefined, _ => .undefined

/-- What is there behind the call, for what was there before it. -/
def getD : Parsed α → α → α
  | .value a, _ | .thrown a, _ => a
  | .undefined, a => a

def isValue : Parsed α → Bool
  | .value _ => true
  | .thrown _ | .undefined => false

def isDefined : Parsed α → Bool
  | .value _ | .thrown _ => true
  | .undefined => false

theorem isValue_iff {x : Parsed α} : x.isValue ↔ ∃ a, x = .value a := by
  cases x <;> simp [isValue]

theorem bind_eq_value {x : Parsed α} {f : α → Parsed α} {b : α} :
    x.bind f = .value b ↔ ∃ a, x = .value a ∧ f a = .value b := by
  cases x <;> simp [bind]

end Parsed

/-! ## Environment -/

/-- `Http::RequestMethod`. -/
inductive RequestMethod where
  | error | head | get | post | put | delete | trace | options | connect
deriving DecidableEq

/-- What a request reads of `Http::Environment`. -/
structure Environment where
  requestMethod : RequestMethod := .error
  requestUri : Bytes := []
  contentType : Bytes := []
  /-- The bytes with their size, which is not initialised before. -/
  boundary : Option Bytes := none
  contentLength : UInt32 := 0
  posts : Posts := fun _ => none

/-- `memchr`, as an offset. -/
def memchr (data : Bytes) (c : UInt8) (count : Nat) : Option Nat :=
  (data.take count).findIdx? (· == c)

namespace Environment

/-- The labels that `fill` compares a method with. -/
def methodOf (value : Bytes) : RequestMethod :=
  if value = bytes "GET" then .get
  else if value = bytes "PUT" then .put
  else if value = bytes "HEAD" then .head
  else if value = bytes "POST" then .post
  else if value = bytes "TRACE" then .trace
  else if value = bytes "DELETE" then .delete
  else if value = bytes "OPTIONS" then .options
  else .error

/-- `Http::atoi`: a minus and digits as far as they go. -/
def atoi (value : Bytes) : UInt32 :=
  let negative := value.head? = some '-'.toUInt8
  let digits := (if negative then value.tail else value).takeWhile Decimal.isDigit
  let result := UInt32.ofNat (Decimal.value digits)
  if negative then -result else result

/-- CONTENT_TYPE in `fill`, in the memory from the value on. -/
def setContentType (env : Environment) (memory : Bytes) (valueSize : Nat) : Parsed Environment :=
  match memchr memory ';'.toUInt8 valueSize with
  | none => .value { env with contentType := memory.take valueSize }
  | some ends =>
      let env := { env with contentType := memory.take ends }
      -- `valueSize-(end-data)`, with `data` behind the value
      match memchr (memory.drop ends) '='.toUInt8 (2 * valueSize - ends) with
      | some i =>
          let start := ends + i + 1
          if start ≤ valueSize then
            .value { env with boundary := some ((memory.take valueSize).drop start) }
          else .thrown env
      | none => if 2 * valueSize ≤ memory.length then .value env else .undefined

/-- The other values that `fill` reads. -/
def setValue (env : Environment) (name value : Bytes) : Environment :=
  if name = bytes "REQUEST_URI" then { env with requestUri := value }
  else if name = bytes "REQUEST_METHOD" then { env with requestMethod := methodOf value }
  else if name = bytes "CONTENT_LENGTH" then { env with contentLength := atoi value }
  else env

/-- One turn of the loop in `fill`. -/
def setParam (env : Environment) (name memory : Bytes) (valueSize : Nat) : Parsed Environment :=
  if name = bytes "CONTENT_TYPE" then env.setContentType memory valueSize
  else .value (env.setValue name (memory.take valueSize))

/-- The loop of `fill`; a pointer behind the memory is undefined. Each turn
takes some of the memory, so that there are no more turns than bytes. -/
def fillFrom (env : Environment) : Nat → Bytes → Nat → Parsed Environment
  | 0, _, size => if size = 0 then .value env else .undefined
  | n + 1, data, size =>
      if size = 0 then .value env
      else
        match processParamHeader data with
        | none => .undefined
        | some h =>
            if data.length < h.used then .undefined
            else
              (env.setParam (h.name.take h.nameSize) h.value h.valueSize).bind fun env =>
                fillFrom env n (data.drop h.used) (sizeSub size h.used)

/-- `Environment::fill` on a record, with its padding behind its content. -/
def fill (env : Environment) (content padding : Bytes) : Parsed Environment :=
  env.fillFrom (content ++ padding).length (content ++ padding) content.length

end Environment

/-! ## The content of a request -/

/-- The buffer that `fillPostBuffer` makes when there is none. -/
structure PostBuffer where
  mem : Nat → UInt8
  /-- Where `pPostBuffer` stands. -/
  filled : Nat := 0

/-- `Environment::fillPostBuffer` on a buffer of `contentLength` bytes. -/
def fillPostBuffer (contentLength : Nat) (b : PostBuffer) (data : Bytes) : Option PostBuffer :=
  let trueSize := min data.length (contentLength - b.filled)
  if trueSize ≠ 0 then
    some { mem := Memory.store b.mem b.filled (data.take trueSize), filled := b.filled + trueSize }
  else none

theorem fillPostBuffer_eq_none {contentLength : Nat} {b : PostBuffer} {data : Bytes}
    (hdata : data ≠ []) : fillPostBuffer contentLength b data = none ↔ contentLength ≤ b.filled := by
  have hpos := List.length_pos_of_ne_nil hdata
  unfold fillPostBuffer
  dsimp only
  split
  · exact iff_of_false nofun (by omega)
  · exact iff_of_true rfl (by omega)

theorem filled_fillPostBuffer {contentLength : Nat} {b b' : PostBuffer} {data : Bytes}
    (h : fillPostBuffer contentLength b data = some b') :
    b'.filled = b.filled + min data.length (contentLength - b.filled) := by
  unfold fillPostBuffer at h
  dsimp only at h
  split at h
  · cases h
    rfl
  · cases h

namespace Environment

def multipart : Bytes := bytes "multipart/form-data"
def urlEncoded : Bytes := bytes "application/x-www-form-urlencoded"

/-- `Environment::parsePostsMultipart`. A loop without a turn reads no
buffer. -/
def parsePostsMultipart (env : Environment) (postBuffer : Option PostBuffer) : Parsed Environment :=
  match env.boundary with
  | none => .undefined
  | some boundary =>
      if env.contentLength.toNat ≤ boundary.length + 2 then .value env
      else
        match postBuffer with
        | none => .undefined
        | some b =>
            match Simurga.parsePostsMultipart boundary b.mem env.contentLength.toNat env.posts with
            | some posts => .value { env with posts }
            | none => .undefined

/-- `Environment::parsePostsUrlEncoded`, which begins with the first byte
of the buffer. -/
def parsePostsUrlEncoded (env : Environment) (postBuffer : Option PostBuffer) : Parsed Environment :=
  if env.contentLength = 0 then .value env
  else
    match postBuffer with
    | none => .undefined
    | some b =>
        .value { env with
          posts := Simurga.parsePostsUrlEncoded b.mem env.contentLength.toNat env.posts }

/-- What `handler` parses at the end of the input. -/
def parsePosts (env : Environment) (postBuffer : Option PostBuffer) : Parsed Environment :=
  if env.requestMethod = .post then
    if env.contentType = multipart then env.parsePostsMultipart postBuffer
    else if env.contentType = urlEncoded then env.parsePostsUrlEncoded postBuffer
    else .thrown env
  else .value env

/-- The content of a POST that is parsed without leaving the memory: there
is a buffer where one is read, and a boundary, behind which is not read. -/
structure PostsReadable (env : Environment) (postBuffer : Option PostBuffer) : Prop where
  multipart : env.requestMethod = .post → env.contentType = multipart →
    ∃ boundary, env.boundary = some boundary
      ∧ (env.contentLength.toNat ≤ boundary.length + 2
        ∨ ∃ b, postBuffer = some b ∧ (Simurga.parsePostsMultipart boundary b.mem
          env.contentLength.toNat env.posts).isSome)
  urlEncoded : env.requestMethod = .post → env.contentType = urlEncoded →
    env.contentLength = 0 ∨ postBuffer.isSome

variable {env : Environment} {postBuffer : Option PostBuffer}

theorem isDefined_parsePostsMultipart :
    (env.parsePostsMultipart postBuffer).isDefined
      ↔ ∃ boundary, env.boundary = some boundary
        ∧ (env.contentLength.toNat ≤ boundary.length + 2
          ∨ ∃ b, postBuffer = some b ∧ (Simurga.parsePostsMultipart boundary b.mem
            env.contentLength.toNat env.posts).isSome) := by
  unfold parsePostsMultipart
  cases env.boundary with
  | none => exact iff_of_false nofun nofun
  | some boundary =>
      have hsome : ∀ {p : Bytes → Prop}, (∃ b, some boundary = some b ∧ p b) ↔ p boundary := by simp
      rw [hsome]
      dsimp only
      split
      · rename_i hshort
        exact iff_of_true rfl (.inl hshort)
      · rename_i hlong
        rw [or_iff_right hlong]
        cases postBuffer with
        | none => exact iff_of_false nofun nofun
        | some b =>
            dsimp only
            split
            · rename_i posts hposts
              exact iff_of_true rfl ⟨b, rfl, by rw [hposts]; rfl⟩
            · rename_i hposts
              refine iff_of_false nofun ?_
              rintro ⟨b', hb, hsome⟩
              cases hb
              rw [hposts] at hsome
              cases hsome

theorem isDefined_parsePostsUrlEncoded :
    (env.parsePostsUrlEncoded postBuffer).isDefined
      ↔ env.contentLength = 0 ∨ postBuffer.isSome := by
  unfold Environment.parsePostsUrlEncoded
  split
  · rename_i hzero
    exact iff_of_true rfl (.inl hzero)
  · rename_i hlength
    rw [or_iff_right hlength]
    cases postBuffer <;> rfl

/-- The end of the input is defined exactly then. -/
theorem postsReadable_iff : env.PostsReadable postBuffer ↔ (env.parsePosts postBuffer).isDefined := by
  unfold parsePosts
  split
  · rename_i hpost
    split
    · rename_i hmultipart
      have hother : env.contentType ≠ urlEncoded := by
        rw [hmultipart]
        decide
      rw [isDefined_parsePostsMultipart]
      exact ⟨fun h => h.multipart hpost hmultipart,
        fun h => ⟨fun _ _ => h, fun _ hurl => absurd hurl hother⟩⟩
    · rename_i hother
      split
      · rename_i hurl
        rw [isDefined_parsePostsUrlEncoded]
        exact ⟨fun h => h.urlEncoded hpost hurl,
          fun h => ⟨fun _ hmulti => absurd hmulti hother, fun _ _ => h⟩⟩
      · rename_i hunknown
        exact iff_of_true ⟨fun _ h => absurd h hother, fun _ h => absurd h hunknown⟩ rfl
  · rename_i hget
    exact iff_of_true ⟨fun h => absurd h hget, fun h => absurd h hget⟩ rfl

instance : Decidable (env.PostsReadable postBuffer) := decidable_of_iff _ postsReadable_iff.symm

/-- A form is read when its boundary has seven bytes and some of it came. -/
theorem postsReadable_of_boundary {b : PostBuffer} {boundary : Bytes}
    (hboundary : env.boundary = some boundary) (hlong : 7 ≤ boundary.length) :
    env.PostsReadable (some b) where
  multipart _ _ := ⟨boundary, hboundary, .inr ⟨b, rfl, isSome_parsePostsMultipart hlong _⟩⟩
  urlEncoded _ _ := .inr rfl

/-! ## What `fill` reads -/

/-- A value with memory behind it from which CONTENT_TYPE takes nothing: it
has no `;`, or the `=` behind that, or the search comes to its end. -/
def IsSafe (value behind : Bytes) : Prop :=
  ';'.toUInt8 ∉ value ∨ '='.toUInt8 ∈ value.dropWhile (· ≠ ';'.toUInt8)
    ∨ value.length ≤ behind.length ∧ '='.toUInt8 ∉ behind.take value.length

/-- CONTENT_TYPE read in its value alone. -/
def withContentType (env : Environment) (value : Bytes) : Environment :=
  match memchr value ';'.toUInt8 value.length with
  | none => { env with contentType := value }
  | some ends =>
      match memchr (value.drop ends) '='.toUInt8 (value.length - ends) with
      | some i =>
          { env with contentType := value.take ends, boundary := some (value.drop (ends + i + 1)) }
      | none => { env with contentType := value.take ends }

/-- A pair, each value read alone. -/
def setPair (env : Environment) (p : Bytes × Bytes) : Environment :=
  if p.1 = bytes "CONTENT_TYPE" then env.withContentType p.2 else env.setValue p.1 p.2

def setPairs (env : Environment) (ps : List Param) : Environment :=
  ps.foldl (fun env p => env.setPair p.pair) env

/-- Pairs with memory behind them in which no CONTENT_TYPE goes astray. -/
def Safe (behind : Bytes) : List Param → Prop
  | [] => True
  | p :: ps =>
      (p.name = bytes "CONTENT_TYPE" → IsSafe p.value (ps.flatMap Param.encode ++ behind))
        ∧ Safe behind ps

/-- A record that `fill` reads. -/
structure Reads (content padding : Bytes) : Prop where
  length_lt : (content ++ padding).length < 2 ^ 64
  pairs : ∃ ps : List Param, content = ps.flatMap Param.encode ∧ Safe padding ps

variable {env env' : Environment} {data value behind content padding : Bytes} {size : Nat}

theorem setPairs_append (env : Environment) (ps qs : List Param) :
    env.setPairs (ps ++ qs) = (env.setPairs ps).setPairs qs := List.foldl_append

/-- The search of CONTENT_TYPE goes through the rest of the value, and as
far behind it as the value is long. -/
theorem take_drop_search {ends : Nat} (hends : ends ≤ value.length) :
    ((value ++ behind).drop ends).take (2 * value.length - ends)
      = value.drop ends ++ behind.take value.length := by
  have hcount : 2 * value.length - ends = (value.drop ends).length + value.length := by
    rw [List.length_drop]
    omega
  rw [List.drop_append_of_le_length hends, hcount, List.take_length_add_append]

theorem mem_of_findIdx? {s : Bytes} {c : UInt8} {i : Nat} (h : s.findIdx? (· == c) = some i) :
    c ∈ s := by
  obtain ⟨hi, hidx⟩ := List.findIdx?_eq_some_iff_findIdx_eq.mp h
  have hfound := List.findIdx_getElem (w := hidx ▸ hi)
  rw [← beq_iff_eq.mp hfound]
  exact List.getElem_mem _

theorem not_mem_of_findIdx? {s : Bytes} {c : UInt8} (h : s.findIdx? (· == c) = none) : c ∉ s := by
  intro hmem
  have hne := List.findIdx?_eq_none_iff.mp h c hmem
  rw [beq_self_eq_true] at hne
  cases hne

theorem setContentType_eq_value :
    env.setContentType (value ++ behind) value.length = .value env'
      ↔ IsSafe value behind ∧ env' = env.withContentType value := by
  have htake : (value ++ behind).take value.length = value := List.take_left
  unfold setContentType withContentType memchr
  rw [htake, List.take_length]
  cases hends : value.findIdx? (· == ';'.toUInt8) with
  | none =>
      dsimp only
      rw [Parsed.value.injEq]
      exact ⟨fun h => ⟨.inl (not_mem_of_findIdx? hends), h.symm⟩, fun h => h.2.symm⟩
  | some ends =>
      obtain ⟨hlt, hidx⟩ := List.findIdx?_eq_some_iff_findIdx_eq.mp hends
      have hdrop : value.dropWhile (· ≠ ';'.toUInt8) = value.drop ends := by
        rw [List.dropWhile_eq_drop_findIdx_not, ← hidx]
        congr 2
        funext c
        by_cases hc : c = ';'.toUInt8 <;> simp [hc]
      have hsafe : IsSafe value behind ↔ '='.toUInt8 ∈ value.drop ends
          ∨ value.length ≤ behind.length ∧ '='.toUInt8 ∉ behind.take value.length := by
        rw [IsSafe, hdrop, or_iff_right (not_not_intro (mem_of_findIdx? hends))]
      have hrest : (value.drop ends).take (value.length - ends) = value.drop ends :=
        List.take_of_length_le (List.length_drop ..).le
      dsimp only
      rw [hsafe, take_drop_search (Nat.le_of_lt hlt),
        List.take_append_of_le_length (Nat.le_of_lt hlt), hrest, List.findIdx?_append]
      cases hequals : (value.drop ends).findIdx? (· == '='.toUInt8) with
      | some i =>
          have hi := (List.findIdx?_eq_some_iff_findIdx_eq.mp hequals).1
          rw [List.length_drop] at hi
          rw [Option.some_or]
          dsimp only
          rw [if_pos (by omega), Parsed.value.injEq]
          exact ⟨fun h => ⟨.inl (mem_of_findIdx? hequals), h.symm⟩, fun h => h.2.symm⟩
      | none =>
          rw [or_iff_right (not_mem_of_findIdx? hequals), Option.none_or]
          cases hbehind : (behind.take value.length).findIdx? (· == '='.toUInt8) with
          | some i =>
              -- the boundary would end before it begins
              rw [Option.map_some, List.length_drop]
              dsimp only
              rw [if_neg (by omega)]
              exact iff_of_false nofun fun h => h.1.2 (mem_of_findIdx? hbehind)
          | none =>
              rw [Option.map_none, List.length_append]
              dsimp only
              split
              · rename_i hlen
                rw [Parsed.value.injEq]
                exact ⟨fun h => ⟨⟨by omega, not_mem_of_findIdx? hbehind⟩, h.symm⟩, fun h => h.2.symm⟩
              · rename_i hlen
                refine iff_of_false nofun fun h => hlen ?_
                have := h.1.1
                omega

theorem setParam_eq_value {name : Bytes} :
    env.setParam name (value ++ behind) value.length = .value env'
      ↔ (name = bytes "CONTENT_TYPE" → IsSafe value behind) ∧ env' = env.setPair (name, value) := by
  unfold setParam setPair
  by_cases hname : name = bytes "CONTENT_TYPE"
  · rw [if_pos hname, if_pos hname, setContentType_eq_value]
    exact and_congr_left fun _ => ⟨fun h _ => h, fun h => h hname⟩
  · rw [if_neg hname, if_neg hname, List.take_left, Parsed.value.injEq]
    exact ⟨fun h => ⟨fun h => absurd h hname, h.symm⟩, fun h => h.2.symm⟩

/-! ## One record -/

/-- One turn: there is a pair, and it is set. -/
theorem fillFrom_succ {n : Nat} (hsize : size ≠ 0) :
    env.fillFrom (n + 1) data size = .value env'
      ↔ ∃ (p : Param) (rest : Bytes), data = p.encode ++ rest
        ∧ (p.name = bytes "CONTENT_TYPE" → IsSafe p.value rest)
        ∧ (env.setPair p.pair).fillFrom n rest (sizeSub size p.encode.length) = .value env' := by
  rw [fillFrom, if_neg hsize]
  constructor
  · intro h
    cases hread : processParamHeader data with
    | none => rw [hread] at h; cases h
    | some header =>
        rw [hread] at h
        dsimp only at h
        split at h
        · cases h
        · rename_i hused
          obtain ⟨p, rest, rfl, hp⟩ := exists_param_of_processParamHeader hread (by omega)
          obtain ⟨env₁, hset, hrest⟩ := Parsed.bind_eq_value.mp h
          rw [hp.take_name, hp.value, hp.valueSize, setParam_eq_value] at hset
          obtain ⟨hsafe, rfl⟩ := hset
          rw [hp.used, List.drop_left] at hrest
          exact ⟨p, rest, rfl, hsafe, hrest⟩
  · rintro ⟨p, rest, rfl, hsafe, hrest⟩
    obtain ⟨header, hread, hp⟩ := processParamHeader_encode p rest
    have hused : ¬ (p.encode ++ rest).length < header.used := by
      rw [hp.used, List.length_append]
      omega
    rw [hread]
    dsimp only
    rw [if_neg hused, Parsed.bind_eq_value]
    refine ⟨env.setPair p.pair, ?_, ?_⟩
    · rw [hp.take_name, hp.value, hp.valueSize, setParam_eq_value]
      exact ⟨hsafe, rfl⟩
    · rw [hp.used, List.drop_left]
      exact hrest

theorem flatMap_encode_eq_nil {ps : List Param} : ps.flatMap Param.encode = [] ↔ ps = [] := by
  cases ps with
  | nil => simp
  | cons p ps => simp [p.encode_ne_nil]

/-- Nothing is left to be read. -/
theorem fillFrom_zero_eq_value (n : Nat) :
    env.fillFrom n data 0 = .value env'
      ↔ ∃ (ps : List Param) (behind : Bytes), data = ps.flatMap Param.encode ++ behind
        ∧ 0 = (ps.flatMap Param.encode).length ∧ Safe behind ps ∧ env' = env.setPairs ps := by
  have hfill : env.fillFrom n data 0 = .value env := by cases n <;> rfl
  rw [hfill, Parsed.value.injEq]
  constructor
  · rintro rfl
    exact ⟨[], data, rfl, rfl, trivial, rfl⟩
  · rintro ⟨ps, behind, -, hsize, -, rfl⟩
    obtain rfl := flatMap_encode_eq_nil.mp (List.eq_nil_of_length_eq_zero hsize.symm)
    rfl

/-- A size that was made smaller than zero is larger than every memory. -/
theorem sizeSub_eq_iff {k m : Nat} (hsize : size < 2 ^ 64) (hk : k < 2 ^ 64)
    (hsum : k + m < 2 ^ 64) : sizeSub size k = m ↔ size = k + m := by
  unfold sizeSub
  omega

/-- The loop, with as many turns as it may take. -/
theorem fillFrom_eq_value {n : Nat} (hn : data.length ≤ n) (hdata : data.length < 2 ^ 64)
    (hsize : size < 2 ^ 64) :
    env.fillFrom n data size = .value env'
      ↔ ∃ (ps : List Param) (behind : Bytes), data = ps.flatMap Param.encode ++ behind
        ∧ size = (ps.flatMap Param.encode).length ∧ Safe behind ps ∧ env' = env.setPairs ps := by
  induction n generalizing env data size with
  | zero =>
      obtain rfl : data = [] := List.eq_nil_of_length_eq_zero (Nat.le_zero.mp hn)
      by_cases h0 : size = 0
      · rw [h0]
        exact fillFrom_zero_eq_value 0
      · rw [fillFrom, if_neg h0]
        refine iff_of_false nofun ?_
        rintro ⟨ps, behind, hps, rfl, -⟩
        rw [(List.append_eq_nil_iff.mp hps.symm).1] at h0
        exact h0 rfl
  | succ n ih =>
      by_cases h0 : size = 0
      · rw [h0]
        exact fillFrom_zero_eq_value (n + 1)
      · rw [fillFrom_succ h0]
        have hlt : ∀ k, sizeSub size k < 2 ^ 64 := fun k => Nat.mod_lt _ (Nat.two_pow_pos 64)
        constructor
        · rintro ⟨p, rest, rfl, hsafe, hrest⟩
          have hpos := List.length_pos_of_ne_nil p.encode_ne_nil
          rw [List.length_append] at hn hdata
          obtain ⟨ps, behind, rfl, hps, hsafes, rfl⟩ := (ih (by omega) (by omega) (hlt _)).mp hrest
          rw [List.length_append] at hdata
          rw [sizeSub_eq_iff hsize (by omega) (by omega)] at hps
          refine ⟨p :: ps, behind, ?_, ?_, ⟨hsafe, hsafes⟩, rfl⟩
          · rw [List.flatMap_cons, List.append_assoc]
          · rw [List.flatMap_cons, List.length_append]
            exact hps
        · rintro ⟨ps, behind, rfl, rfl, hsafe, rfl⟩
          cases ps with
          | nil => exact absurd rfl h0
          | cons p ps =>
              have hpos := List.length_pos_of_ne_nil p.encode_ne_nil
              rw [List.flatMap_cons, List.length_append] at hsize
              rw [List.length_append, List.flatMap_cons, List.length_append] at hn hdata
              have hrest : (ps.flatMap Param.encode ++ behind).length
                  = (ps.flatMap Param.encode).length + behind.length := List.length_append
              refine ⟨p, ps.flatMap Param.encode ++ behind, ?_, hsafe.1, ?_⟩
              · rw [List.flatMap_cons, List.append_assoc]
              · refine (ih (by omega) (by omega) (hlt _)).mpr
                  ⟨ps, behind, rfl, ?_, hsafe.2, rfl⟩
                rw [List.flatMap_cons, List.length_append, sizeSub_eq_iff (by omega) (by omega) (by omega)]

/-- A record is read exactly when its content is whole pairs in which no
CONTENT_TYPE goes astray. -/
theorem fill_eq_value_iff (hlen : (content ++ padding).length < 2 ^ 64) :
    env.fill content padding = .value env'
      ↔ ∃ ps : List Param, content = ps.flatMap Param.encode ∧ Safe padding ps
        ∧ env' = env.setPairs ps := by
  have hsize : content.length < 2 ^ 64 := by
    rw [List.length_append] at hlen
    omega
  unfold fill
  rw [fillFrom_eq_value (Nat.le_refl _) hlen hsize]
  constructor
  · rintro ⟨ps, behind, hdata, hcontent, hsafe, rfl⟩
    obtain ⟨rfl, rfl⟩ := List.append_inj hdata hcontent
    exact ⟨ps, rfl, hsafe, rfl⟩
  · rintro ⟨ps, rfl, hsafe, rfl⟩
    exact ⟨ps, padding, rfl, rfl, hsafe, rfl⟩

theorem Reads.fill (h : Reads content padding) (env : Environment) :
    ∃ env', env.fill content padding = .value env' := by
  obtain ⟨ps, hps, hsafe⟩ := h.pairs
  exact ⟨_, (fill_eq_value_iff h.length_lt).mpr ⟨ps, hps, hsafe, rfl⟩⟩

theorem reads_iff : Reads content padding
    ↔ (content ++ padding).length < 2 ^ 64 ∧ (({} : Environment).fill content padding).isValue := by
  constructor
  · intro h
    exact ⟨h.length_lt, Parsed.isValue_iff.mpr (h.fill {})⟩
  · rintro ⟨hlen, hvalue⟩
    obtain ⟨env', hfill⟩ := Parsed.isValue_iff.mp hvalue
    obtain ⟨ps, hps, hsafe, -⟩ := (fill_eq_value_iff hlen).mp hfill
    exact ⟨hlen, ps, hps, hsafe⟩

instance : Decidable (Reads content padding) := decidable_of_iff _ reads_iff.symm

/-! ## The stream of a request -/

/-- The PARAMS records of a request one after the other, each with its
content and its padding. -/
def fillAll (env : Environment) : List (Bytes × Bytes) → Parsed Environment
  | [] => .value env
  | r :: rs => (env.fill r.1 r.2).bind fun env => fillAll env rs

/-- Records whose contents are whole pairs, with none that goes astray. -/
def Whole (ps : List Param) (rs : List (Bytes × Bytes)) : Prop :=
  ∃ pss : List (List Param), pss.flatten = ps
    ∧ List.Forall₂ (fun ps r => r.1 = ps.flatMap Param.encode ∧ Safe r.2 ps) pss rs

theorem fillAll_eq_value_iff {rs : List (Bytes × Bytes)}
    (hlen : ∀ r ∈ rs, (r.1 ++ r.2).length < 2 ^ 64) :
    env.fillAll rs = .value env' ↔ ∃ ps, Whole ps rs ∧ env' = env.setPairs ps := by
  induction rs generalizing env with
  | nil =>
      rw [fillAll, Parsed.value.injEq]
      constructor
      · rintro rfl
        exact ⟨[], ⟨[], rfl, .nil⟩, rfl⟩
      · rintro ⟨ps, ⟨pss, rfl, hpss⟩, rfl⟩
        cases hpss
        rfl
  | cons r rs ih =>
      rw [fillAll, Parsed.bind_eq_value]
      constructor
      · rintro ⟨env₁, hfirst, hrest⟩
        obtain ⟨qs, hqs, hsafe, rfl⟩ :=
          (fill_eq_value_iff (hlen r (List.mem_cons_self ..))).mp hfirst
        obtain ⟨ps, ⟨pss, rfl, hpss⟩, rfl⟩ := (ih fun r hr => hlen r (List.mem_cons_of_mem _ hr)).mp hrest
        exact ⟨qs ++ pss.flatten, ⟨qs :: pss, rfl, .cons ⟨hqs, hsafe⟩ hpss⟩,
          (setPairs_append env qs _).symm⟩
      · rintro ⟨ps, ⟨pss, rfl, hpss⟩, rfl⟩
        cases hpss with
        | @cons qs _ pss _ hqs hpss =>
            refine ⟨_, (fill_eq_value_iff (hlen r (List.mem_cons_self ..))).mpr
              ⟨qs, hqs.1, hqs.2, rfl⟩, ?_⟩
            refine (ih fun r hr => hlen r (List.mem_cons_of_mem _ hr)).mpr
              ⟨pss.flatten, ⟨pss, rfl, hpss⟩, ?_⟩
            rw [List.flatten_cons, setPairs_append]

theorem flatMap_encode_flatten {pss : List (List Param)} {rs : List (Bytes × Bytes)}
    (h : List.Forall₂ (fun ps r => r.1 = ps.flatMap Param.encode ∧ Safe r.2 ps) pss rs) :
    pss.flatten.flatMap Param.encode = (rs.map Prod.fst).flatten := by
  induction h with
  | nil => rfl
  | cons hr _ ih =>
      rw [List.flatten_cons, List.flatMap_append, ih, List.map_cons, List.flatten_cons, hr.1]

/-- The pairs of a request may be cut into records anywhere, but they are
read only when no pair is cut and no search for a boundary goes astray; the
call throws or is undefined otherwise. -/
theorem fillAll_of_stream {ps : List Param} {rs : List (Bytes × Bytes)}
    (hlen : ∀ r ∈ rs, (r.1 ++ r.2).length < 2 ^ 64)
    (hstream : (rs.map Prod.fst).flatten = ps.flatMap Param.encode) :
    (env.fillAll rs = .value (env.setPairs ps) ↔ Whole ps rs)
      ∧ ((∀ env', env.fillAll rs ≠ .value env') ↔ ¬ Whole ps rs) := by
  have hps : ∀ qs, Whole qs rs → qs = ps := by
    rintro qs ⟨pss, rfl, hpss⟩
    exact Param.flatMap_encode_inj ((flatMap_encode_flatten hpss).trans hstream)
  have hvalue : env.fillAll rs = .value (env.setPairs ps) ↔ Whole ps rs := by
    rw [fillAll_eq_value_iff hlen]
    constructor
    · rintro ⟨qs, hqs, -⟩
      exact hps qs hqs ▸ hqs
    · exact fun h => ⟨ps, h, rfl⟩
  refine ⟨hvalue, fun hnone hwhole => hnone _ (hvalue.mpr hwhole), fun hcut env' henv' => ?_⟩
  obtain ⟨qs, hqs, -⟩ := (fillAll_eq_value_iff hlen).mp henv'
  exact hcut (hps qs hqs ▸ hqs)

/-- A content type with a `;`, and no `=` behind it. -/
def contentTypeParam : Param where
  name := bytes "CONTENT_TYPE"
  value := bytes "text/plain; charset"
  longName := false
  longValue := true
  name_lt := by decide
  value_lt := by decide

def uriParam : Param where
  name := bytes "REQUEST_URI"
  value := bytes "/model?a=b"
  longName := false
  longValue := false
  name_lt := by decide
  value_lt := by decide

/-- A `=` of the URI stands where CONTENT_TYPE looks for its boundary, and a
pair is cut. -/
theorem fillAll_of_stream_cut :
    (({} : Environment).fillAll [(contentTypeParam.encode, bytes "=x"),
          (uriParam.encode.take 9, [0, 0]), (uriParam.encode.drop 9, [])]
        = .value (({} : Environment).setPairs [contentTypeParam, uriParam])
      ↔ Whole [contentTypeParam, uriParam] [(contentTypeParam.encode, bytes "=x"),
          (uriParam.encode.take 9, [0, 0]), (uriParam.encode.drop 9, [])])
    ∧ ((∀ env', ({} : Environment).fillAll [(contentTypeParam.encode, bytes "=x"),
          (uriParam.encode.take 9, [0, 0]), (uriParam.encode.drop 9, [])] ≠ .value env')
      ↔ ¬ Whole [contentTypeParam, uriParam] [(contentTypeParam.encode, bytes "=x"),
          (uriParam.encode.take 9, [0, 0]), (uriParam.encode.drop 9, [])]) :=
  fillAll_of_stream (by decide) rfl

end Environment

end Simurga
