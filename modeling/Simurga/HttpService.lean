import Simurga.Common
import Mathlib.Logic.Function.Basic

/-!
# HTTP objects and the route table

`httpservice.cpp`: the object a request is answered by, the table of
paths, and `HttpObjectList::allocate`, which takes a request URI to an
object and an id; and the percent decoder of `http.cpp` that it uses.

A handler class is a parameter: the table is generic in what its
allocators make, and `ObjectClass` are the classes of the standard table.
-/

namespace Simurga

/-! ## Percent decoding -/

/-- The value of a hex digit; anything else adds nothing. -/
def hexValue (c : UInt8) : UInt8 :=
  if 97 ≤ (c ||| 32) && (c ||| 32) ≤ 102 then (c ||| 32) - 87
  else if 48 ≤ c && c ≤ 57 then c &&& 15
  else 0

/-- `percentEscapedToRealBytes`: an escape cut short by the end of the
text has zeros for the digits that are missing. -/
def percentEscapedToRealBytes : Bytes → Bytes
  | [] => []
  | c :: rest =>
      if c = '%'.toUInt8 then
        match rest with
        | [] => [0]
        | [hi] => [hexValue hi <<< 4]
        | hi :: lo :: rest => (hexValue hi <<< 4 ||| hexValue lo) :: percentEscapedToRealBytes rest
      else if c = '+'.toUInt8 then ' '.toUInt8 :: percentEscapedToRealBytes rest
      else c :: percentEscapedToRealBytes rest

/-- Bytes the decoder leaves alone. -/
def IsPlain (c : UInt8) : Prop := c ≠ '%'.toUInt8 ∧ c ≠ '+'.toUInt8

theorem percentEscapedToRealBytes_cons {c : UInt8} (hc : IsPlain c) (s : Bytes) :
    percentEscapedToRealBytes (c :: s) = c :: percentEscapedToRealBytes s := by
  rw [percentEscapedToRealBytes.eq_def]
  dsimp only
  rw [if_neg hc.1, if_neg hc.2]

theorem percentEscapedToRealBytes_plain {s : Bytes} (h : ∀ c ∈ s, IsPlain c) :
    percentEscapedToRealBytes s = s := by
  induction s with
  | nil => rfl
  | cons c s ih =>
      rw [percentEscapedToRealBytes_cons (h c (List.mem_cons_self ..)),
        ih fun d hd => h d (List.mem_cons_of_mem c hd)]

/-! ## `HttpObject` -/

/-- `HttpObject` and the class of its child. -/
structure HttpObject (Class : Type) where
  objectClass : Class
  status : Bytes := bytes "200 OK"
  path : Bytes := []
  contentType : Bytes := bytes "text/html; charset=utf-8"
  customHeaders : Bytes := []
  data : Bytes := bytes "OK"
deriving DecidableEq

/-- `NotFound` and `NotFound(desc)`. -/
def notFound (desc : Bytes := bytes "Object not found") : Thrown :=
  .httpException (bytes "404 Not Found") desc

/-! ## The table -/

/-- `HttpObjectList::Item`. -/
structure TableItem (Class : Type) where
  acceptsId : Bool
  objectClass : Class

abbrev ObjectTable (Class : Type) := Bytes → Option (TableItem Class)

namespace HttpObjectList

variable {Class : Type}

def add (table : ObjectTable Class) (path : Bytes) (acceptsId : Bool) (objectClass : Class) :
    ObjectTable Class :=
  Function.update table path (some ⟨acceptsId, objectClass⟩)

/-- The path of the request: the URI without its query and without one
slash at the end. -/
def requestPath (requestUri : Bytes) : Bytes :=
  let path := match find "?" requestUri 0 with
    | some pos => requestUri.take pos
    | none => requestUri
  if path.getLast? = some '/'.toUInt8 then path.dropLast else path

/-- The characters an id must not have: `\ / | . & #`. -/
def forbidden : Bytes := bytes "\\/|.&#"

/-- `HttpObjectList::allocate`: the object, and what `id` is afterwards. -/
def allocate (table : ObjectTable Class) (requestUri id : Bytes) :
    Option (HttpObject Class) × Bytes :=
  let path := requestPath requestUri
  let decodedPath := percentEscapedToRealBytes path
  match table decodedPath with
  | some item => (some { objectClass := item.objectClass, path := decodedPath }, id)
  | none =>
      match Search.lastIndexOf? '/'.toUInt8 path with
      | none => (none, id)
      | some pos =>
          let id := percentEscapedToRealBytes (path.drop (pos + 1))
          let path := percentEscapedToRealBytes (path.take pos)
          if id = [] ∨ ∃ c ∈ id, c ∈ forbidden then (none, id)
          else
            match table path with
            | some item =>
                if item.acceptsId then
                  (some { objectClass := item.objectClass, path := path ++ bytes "/" ++ id }, id)
                else (none, id)
            | none => (none, id)

end HttpObjectList

/-- The children of `HttpObject`. -/
inductive ObjectClass where
  | staticPage | lookbook | collection | model
deriving DecidableEq

/-- `HttpObjectList::add_standard_objects`. -/
def addStandardObjects (table : ObjectTable ObjectClass) : ObjectTable ObjectClass :=
  [(bytes "/phylosophy", false, ObjectClass.staticPage), (bytes "/contacts", false, .staticPage),
    (bytes "/howtobuy", false, .staticPage), (bytes "/lookbook", false, .lookbook),
    ([], false, .lookbook), (bytes "/collection", false, .collection),
    (bytes "/model", true, .model)].foldl
    (fun table (path, acceptsId, objectClass) => HttpObjectList.add table path acceptsId objectClass)
    table

/-- The table of the singleton. -/
def standardTable : ObjectTable ObjectClass := addStandardObjects fun _ => none

namespace HttpObjectList

/-! ## The two ways to an object -/

variable {Class : Type} {table : ObjectTable Class} {uri path : Bytes}

theorem requestPath_query (h : '?'.toUInt8 ∉ path) (query : Bytes) :
    requestPath (path ++ '?'.toUInt8 :: query) = requestPath path := by
  have hmark : bytes "?" = ['?'.toUInt8] := rfl
  have hcut : find "?" (path ++ '?'.toUInt8 :: query) 0 = some path.length := by
    rw [find, hmark, Search.find_singleton h]
  have hnone : find "?" path 0 = none := by
    rw [find, hmark, Search.find_singleton_none h]
  unfold requestPath
  simp only [hcut, hnone, List.take_left]

theorem requestPath_slash (h : '?'.toUInt8 ∉ path) :
    requestPath (path ++ bytes "/") = path := by
  have hnone : find "?" (path ++ bytes "/") 0 = none := by
    have hmark : bytes "?" = ['?'.toUInt8] := rfl
    rw [find, hmark, Search.find_singleton_none]
    rw [List.mem_append, not_or]
    exact ⟨h, by decide⟩
  have hlast : (path ++ bytes "/").getLast? = some '/'.toUInt8 := by
    rw [show bytes "/" = ['/'.toUInt8] from rfl, List.getLast?_concat]
  unfold requestPath
  simp only [hnone, hlast, if_true]
  exact List.dropLast_concat

theorem requestPath_of_not_mem (h : '?'.toUInt8 ∉ path)
    (hlast : path.getLast? ≠ some '/'.toUInt8) : requestPath path = path := by
  have hnone : find "?" path 0 = none := by
    have hmark : bytes "?" = ['?'.toUInt8] := rfl
    rw [find, hmark, Search.find_singleton_none h]
  unfold requestPath
  simp only [hnone, if_neg hlast]

/-- What `allocate` says when it returns an object: the whole path is a
key, or its last part is an id of a key that takes ids. -/
theorem allocate_eq_some {id id' : Bytes} {obj : HttpObject Class}
    (h : allocate table uri id = (some obj, id')) :
    (∃ item, table (percentEscapedToRealBytes (requestPath uri)) = some item
      ∧ obj = { objectClass := item.objectClass
                path := percentEscapedToRealBytes (requestPath uri) }
      ∧ id' = id)
    ∨ (∃ pre post item, requestPath uri = pre ++ '/'.toUInt8 :: post ∧ '/'.toUInt8 ∉ post
      ∧ table (percentEscapedToRealBytes (requestPath uri)) = none
      ∧ id' = percentEscapedToRealBytes post ∧ id' ≠ [] ∧ (∀ c ∈ id', c ∉ forbidden)
      ∧ table (percentEscapedToRealBytes pre) = some item ∧ item.acceptsId = true
      ∧ obj = { objectClass := item.objectClass
                path := percentEscapedToRealBytes pre ++ bytes "/" ++ id' }) := by
  unfold allocate at h
  cases hexact : table (percentEscapedToRealBytes (requestPath uri)) with
  | some item =>
      simp only [hexact] at h
      cases h
      exact Or.inl ⟨item, rfl, rfl, rfl⟩
  | none =>
      simp only [hexact] at h
      cases hslash : Search.lastIndexOf? '/'.toUInt8 (requestPath uri) with
      | none => rw [hslash] at h; cases h
      | some pos =>
          obtain ⟨pre, post, hpath, rfl, hpost⟩ := Search.lastIndexOf?_split hslash
          rw [hslash, hpath] at h
          simp only [List.take_left, Search.drop_append_cons] at h
          split at h
          · cases h
          · rename_i hallowed
            rw [not_or] at hallowed
            cases hitem : table (percentEscapedToRealBytes pre) with
            | none => simp [hitem] at h
            | some item =>
                simp only [hitem] at h
                split at h
                · rename_i haccepts
                  cases h
                  exact Or.inr ⟨pre, post, item, hpath, hpost, rfl, rfl, hallowed.1,
                    fun c hc hbad => hallowed.2 ⟨c, hc, hbad⟩, hitem, haccepts, rfl⟩
                · cases h

/-- The second way, forwards. -/
theorem allocate_id {pre post : Bytes} {item : TableItem Class}
    (hpath : requestPath uri = pre ++ '/'.toUInt8 :: post) (hpost : '/'.toUInt8 ∉ post)
    (hexact : table (percentEscapedToRealBytes (requestPath uri)) = none)
    (hne : percentEscapedToRealBytes post ≠ [])
    (hallowed : ∀ c ∈ percentEscapedToRealBytes post, c ∉ forbidden)
    (hitem : table (percentEscapedToRealBytes pre) = some item) (haccepts : item.acceptsId = true)
    (id : Bytes) :
    allocate table uri id
      = (some { objectClass := item.objectClass
                path := percentEscapedToRealBytes pre ++ bytes "/" ++ percentEscapedToRealBytes post },
          percentEscapedToRealBytes post) := by
  have hslash : Search.lastIndexOf? '/'.toUInt8 (requestPath uri) = some pre.length := by
    rw [hpath, Search.lastIndexOf?_append hpost]
  have hbad : ¬ (percentEscapedToRealBytes post = [] ∨
      ∃ c ∈ percentEscapedToRealBytes post, c ∈ forbidden) := by
    rintro (h | ⟨c, hc, hf⟩)
    · exact hne h
    · exact hallowed c hc hf
  unfold allocate
  simp only [hexact, hslash]
  rw [hpath, List.take_left, Search.drop_append_cons, if_neg hbad, hitem]
  simp only [haccepts, if_true]

end HttpObjectList

end Simurga
