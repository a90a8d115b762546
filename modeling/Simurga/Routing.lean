import Simurga.HttpService

/-!
# Spellings of a path

One path has many spellings: any byte may be escaped, and the decoder also
takes escapes that are cut short. `allocate` decodes three texts, the whole
path and the two sides of its last slash. They fit together as long as the
slash does not stand inside an escape (`percentEscapedToRealBytes_append`);
then two spellings of the same segments have the same route
(`allocate_of_segments`). An escape that takes the slash in for a digit
hides a key from the first look-up (`allocate_identified_iff`).
-/

namespace Simurga

/-! ## Escapes -/

/-- A byte that `hexValue` has a digit for. -/
def isHexDigit (c : UInt8) : Bool := Decimal.isDigit c || 97 ≤ (c ||| 32) && (c ||| 32) ≤ 102

/-- Each `%` has its two hex digits. -/
def wellEscaped : Bytes → Bool
  | [] => true
  | c :: rest =>
      if c = '%'.toUInt8 then
        match rest with
        | hi :: lo :: rest => isHexDigit hi && isHexDigit lo && wellEscaped rest
        | _ => false
      else wellEscaped rest

/-- The text is over before the two characters of its last escape. -/
def endsInEscape : Bytes → Bool
  | [] => false
  | c :: rest =>
      if c = '%'.toUInt8 then
        match rest with
        | _ :: _ :: rest => endsInEscape rest
        | _ => true
      else endsInEscape rest

/-- Texts are decoded one after the other if no escape lies across them. -/
theorem percentEscapedToRealBytes_append {a : Bytes} (h : endsInEscape a = false) (b : Bytes) :
    percentEscapedToRealBytes (a ++ b)
      = percentEscapedToRealBytes a ++ percentEscapedToRealBytes b := by
  fun_induction endsInEscape a with
  | case1 => rfl
  | case2 hi lo rest ih => simp [percentEscapedToRealBytes, ih h]
  | case3 rest hshort => cases h
  | case4 c rest hc ih =>
      rw [List.cons_append, percentEscapedToRealBytes.eq_def,
        percentEscapedToRealBytes.eq_def (c :: rest)]
      simp only [if_neg hc, ih h]
      split <;> rfl

theorem percentEscapedToRealBytes_slash {pre : Bytes} (h : endsInEscape pre = false)
    (post : Bytes) :
    percentEscapedToRealBytes (pre ++ '/'.toUInt8 :: post)
      = percentEscapedToRealBytes pre ++ bytes "/" ++ percentEscapedToRealBytes post := by
  have hslash : IsPlain '/'.toUInt8 := by
    unfold IsPlain
    decide
  rw [percentEscapedToRealBytes_append h, percentEscapedToRealBytes_cons hslash, List.append_assoc]
  rfl

theorem wellEscaped_cons {c : UInt8} (hc : c ≠ '%'.toUInt8) (s : Bytes) :
    wellEscaped (c :: s) = wellEscaped s := by
  rw [wellEscaped.eq_def]
  simp only [if_neg hc]

/-- A slash is no digit, so well-formed escapes end before it. -/
theorem wellEscaped_slash {pre post : Bytes}
    (h : wellEscaped (pre ++ '/'.toUInt8 :: post) = true) :
    endsInEscape pre = false ∧ wellEscaped pre = true ∧ wellEscaped post = true := by
  fun_induction endsInEscape pre with
  | case1 =>
      rw [List.nil_append, wellEscaped_cons (by decide)] at h
      exact ⟨rfl, rfl, h⟩
  | case2 hi lo rest ih =>
      simp only [List.cons_append, wellEscaped, if_true, Bool.and_eq_true] at h ⊢
      obtain ⟨hrest, hpre, hpost⟩ := ih h.2
      exact ⟨hrest, ⟨h.1, hpre⟩, hpost⟩
  | case3 rest hshort =>
      exfalso
      match rest, hshort with
      | [], _ =>
          cases post <;> simp [wellEscaped] at h
          exact absurd h.1.1 (by decide)
      | [hi], _ =>
          simp [wellEscaped] at h
          exact absurd h.1.2 (by decide)
      | hi :: lo :: rest, hshort => exact hshort hi lo rest rfl
  | case4 c rest hc ih =>
      rw [List.cons_append, wellEscaped_cons hc] at h
      obtain ⟨hrest, hpre, hpost⟩ := ih h
      exact ⟨hrest, (wellEscaped_cons hc rest).trans hpre, hpost⟩

/-! ## Segments -/

/-- The parts of a path between its slashes. -/
def segments (path : Bytes) : List Bytes := path.splitOn '/'.toUInt8

theorem segments_of_not_mem {path : Bytes} (h : '/'.toUInt8 ∉ path) : segments path = [path] :=
  List.splitOn_eq_singleton h

theorem segments_append (pre post : Bytes) :
    segments (pre ++ '/'.toUInt8 :: post) = segments pre ++ segments post :=
  List.splitOn_append_cons_self pre post

theorem segments_ne_nil (path : Bytes) : segments path ≠ [] := List.splitOn_ne_nil _ path

/-- A path is decoded segment by segment. -/
theorem percentEscapedToRealBytes_segments {path : Bytes} (h : wellEscaped path = true) :
    percentEscapedToRealBytes path
      = (bytes "/").intercalate ((segments path).map percentEscapedToRealBytes) := by
  induction hn : path.length using Nat.strongRecOn generalizing path with
  | ind n ih =>
    by_cases hmem : '/'.toUInt8 ∈ path
    · obtain ⟨pre, post, rfl, hpre⟩ := List.eq_append_cons_of_mem hmem
      obtain ⟨hends, -, hpost⟩ := wellEscaped_slash h
      have hrest := ih post.length (by simp at hn; omega) hpost rfl
      obtain ⟨seg, segs, hsegs⟩ := List.exists_cons_of_ne_nil (segments_ne_nil post)
      rw [percentEscapedToRealBytes_slash hends, hrest, segments_append, segments_of_not_mem hpre,
        hsegs]
      simp [List.intercalate]
    · rw [segments_of_not_mem hmem]
      simp [List.intercalate]

namespace HttpObjectList

variable {Class : Type} {table : ObjectTable Class} {uri uri' id₀ : Bytes}

/-! ## Spellings of one path -/

/-- The allocators of a table, made to say under which key they stand. -/
def keyed (table : ObjectTable Class) : ObjectTable (Bytes × Class) := fun key =>
  (table key).map fun item => ⟨item.acceptsId, (key, item.objectClass)⟩

/-- Both sides of the last slash, or the whole path without one, decide. -/
theorem allocate_congr
    (hpath : percentEscapedToRealBytes (requestPath uri) = percentEscapedToRealBytes (requestPath uri'))
    (hparts : '/'.toUInt8 ∉ requestPath uri ∧ '/'.toUInt8 ∉ requestPath uri'
      ∨ ∃ pre post pre' post', requestPath uri = pre ++ '/'.toUInt8 :: post
        ∧ requestPath uri' = pre' ++ '/'.toUInt8 :: post'
        ∧ '/'.toUInt8 ∉ post ∧ '/'.toUInt8 ∉ post'
        ∧ percentEscapedToRealBytes pre = percentEscapedToRealBytes pre'
        ∧ percentEscapedToRealBytes post = percentEscapedToRealBytes post') :
    allocate table uri id₀ = allocate table uri' id₀ := by
  unfold allocate
  rcases hparts with ⟨h, h'⟩ | ⟨pre, post, pre', post', h, h', hpost, hpost', hpre, hid⟩
  · simp only [hpath, Search.lastIndexOf?_eq_none.mpr h, Search.lastIndexOf?_eq_none.mpr h']
  · simp only [hpath]
    simp only [h, h', Search.lastIndexOf?_append hpost, Search.lastIndexOf?_append hpost',
      List.take_left, Search.drop_append_cons, hpre, hid]

/-- The split at the last slash, from the segments. -/
theorem segments_split {path : Bytes} (h : '/'.toUInt8 ∈ path) :
    ∃ pre post, path = pre ++ '/'.toUInt8 :: post ∧ '/'.toUInt8 ∉ post
      ∧ segments path = segments pre ++ [post] := by
  cases hlast : Search.lastIndexOf? '/'.toUInt8 path with
  | none => exact absurd h (Search.lastIndexOf?_eq_none.mp hlast)
  | some pos =>
      obtain ⟨pre, post, rfl, -, hpost⟩ := Search.lastIndexOf?_split hlast
      refine ⟨pre, post, rfl, hpost, ?_⟩
      rw [segments_append, segments_of_not_mem hpost]

/-- Paths whose escapes are well formed and whose segments decode to the
same bytes get the same object and id, from the same entry. -/
theorem allocate_of_segments (table : ObjectTable Class) (uri uri' id₀ : Bytes)
    (h : wellEscaped (requestPath uri) = true) (h' : wellEscaped (requestPath uri') = true)
    (hsegments : (segments (requestPath uri)).map percentEscapedToRealBytes
      = (segments (requestPath uri')).map percentEscapedToRealBytes) :
    allocate table uri id₀ = allocate table uri' id₀
    ∧ allocate (keyed table) uri id₀ = allocate (keyed table) uri' id₀ := by
  have hpath : percentEscapedToRealBytes (requestPath uri)
      = percentEscapedToRealBytes (requestPath uri') := by
    rw [percentEscapedToRealBytes_segments h, percentEscapedToRealBytes_segments h', hsegments]
  -- a path without a slash is one segment, and one with a slash is at least two
  have hone : ∀ {path path' : Bytes}, '/'.toUInt8 ∉ path → '/'.toUInt8 ∈ path' →
      (segments path).map percentEscapedToRealBytes
        ≠ (segments path').map percentEscapedToRealBytes := by
    intro path path' hpath hmem heq
    obtain ⟨pre, post, -, -, hsegs⟩ := segments_split hmem
    have hlen := congrArg List.length heq
    rw [segments_of_not_mem hpath, hsegs] at hlen
    exact segments_ne_nil pre (by simpa using hlen)
  by_cases hmem : '/'.toUInt8 ∈ requestPath uri
  · have hmem' : '/'.toUInt8 ∈ requestPath uri' := by
      by_contra hno
      exact hone hno hmem hsegments.symm
    obtain ⟨pre, post, hsplit, hpost, hsegs⟩ := segments_split hmem
    obtain ⟨pre', post', hsplit', hpost', hsegs'⟩ := segments_split hmem'
    rw [hsegs, hsegs', List.map_append, List.map_append] at hsegments
    obtain ⟨hpres, hids⟩ := List.append_inj' hsegments rfl
    have hpre : percentEscapedToRealBytes pre = percentEscapedToRealBytes pre' := by
      rw [percentEscapedToRealBytes_segments (wellEscaped_slash (hsplit ▸ h)).2.1,
        percentEscapedToRealBytes_segments (wellEscaped_slash (hsplit' ▸ h')).2.1, hpres]
    have hid : percentEscapedToRealBytes post = percentEscapedToRealBytes post' := by
      simpa using hids
    constructor <;> exact allocate_congr hpath
      (Or.inr ⟨pre, post, pre', post', hsplit, hsplit', hpost, hpost', hpre, hid⟩)
  · have hmem' : '/'.toUInt8 ∉ requestPath uri' := fun hyes => hone hmem hyes hsegments
    constructor <;> exact allocate_congr hpath (Or.inl ⟨hmem, hmem'⟩)

/-- One link, spelt in two ways. -/
theorem allocate_of_segments_sample :
    allocate standardTable (bytes "/model/7-dark%2Dblue?a/b") []
        = allocate standardTable (bytes "/%6dode%6C/%37-dark-blue/") []
      ∧ allocate (keyed standardTable) (bytes "/model/7-dark%2Dblue?a/b") []
        = allocate (keyed standardTable) (bytes "/%6dode%6C/%37-dark-blue/") [] :=
  allocate_of_segments standardTable (bytes "/model/7-dark%2Dblue?a/b")
    (bytes "/%6dode%6C/%37-dark-blue/") [] (by decide +kernel) (by decide +kernel)
    (by decide +kernel)

/-! ## The path of an object -/

/-- What an object's path says about its entry: the path is the key, or
the key and an id, and then it is not a key itself. -/
inductive Identified (table : ObjectTable Class) (id₀ : Bytes) (obj : HttpObject (Bytes × Class))
    (id : Bytes) : Prop where
  | exact {item : TableItem Class} (hitem : table obj.path = some item)
      (hclass : obj.objectClass = (obj.path, item.objectClass)) (hid : id = id₀)
  | id {key : Bytes} {item : TableItem Class} (hitem : table key = some item)
      (hclass : obj.objectClass = (key, item.objectClass)) (haccepts : item.acceptsId = true)
      (hne : id ≠ []) (hallowed : ∀ c ∈ id, c ∉ forbidden)
      (hpath : obj.path = key ++ bytes "/" ++ id) (hkey : table obj.path = none)

/-- The last slash stands inside an escape, so that the first look-up does
not see it; what the second one takes apart there is a key itself. -/
structure Shadowed (table : ObjectTable Class) (pre post : Bytes) : Prop where
  slash : '/'.toUInt8 ∉ post
  escape : endsInEscape pre = true
  unseen : table (percentEscapedToRealBytes (pre ++ '/'.toUInt8 :: post)) = none
  ne_nil : percentEscapedToRealBytes post ≠ []
  allowed : ∀ c ∈ percentEscapedToRealBytes post, c ∉ forbidden
  accepts : ∃ item, table (percentEscapedToRealBytes pre) = some item ∧ item.acceptsId = true
  key : table (percentEscapedToRealBytes pre ++ bytes "/" ++ percentEscapedToRealBytes post) ≠ none

/-- The last slash of the request hides no key. -/
def Clear (table : ObjectTable Class) (uri : Bytes) : Prop :=
  ∀ pre post, requestPath uri = pre ++ '/'.toUInt8 :: post → ¬ Shadowed table pre post

/-- `allocate` does not look at what an allocator makes. -/
theorem allocate_keyed (table : ObjectTable Class) (uri id₀ : Bytes) :
    allocate table uri id₀
      = ((allocate (keyed table) uri id₀).1.map fun obj =>
          { obj with objectClass := obj.objectClass.2 },
        (allocate (keyed table) uri id₀).2) := by
  unfold allocate
  dsimp only [keyed]
  cases table (percentEscapedToRealBytes (requestPath uri)) with
  | some item => rfl
  | none =>
      cases Search.lastIndexOf? '/'.toUInt8 (requestPath uri) with
      | none => rfl
      | some pos =>
          dsimp only [Option.map_none]
          split
          · rfl
          · cases table (percentEscapedToRealBytes ((requestPath uri).take pos)) with
            | none => rfl
            | some item => cases haccepts : item.acceptsId <;> simp [haccepts]

theorem keyed_eq_some {key : Bytes} {item : TableItem (Bytes × Class)}
    (h : keyed table key = some item) :
    ∃ item', table key = some item' ∧ item = ⟨item'.acceptsId, (key, item'.objectClass)⟩ := by
  obtain ⟨item', hitem, rfl⟩ := Option.map_eq_some_iff.mp h
  exact ⟨item', hitem, rfl⟩

theorem keyed_eq_none {key : Bytes} : keyed table key = none ↔ table key = none :=
  Option.map_eq_none_iff

theorem identified_of_not_shadowed {id : Bytes} {obj : HttpObject (Bytes × Class)}
    (hclear : Clear table uri)
    (h : allocate (keyed table) uri id₀ = (some obj, id)) : Identified table id₀ obj id := by
  rcases allocate_eq_some h with ⟨item, hitem, rfl, rfl⟩ |
    ⟨pre, post, item, hpath, hpost, hunseen, rfl, hne, hallowed, hitem, haccepts, rfl⟩
  · obtain ⟨item', hitem', rfl⟩ := keyed_eq_some hitem
    exact .exact hitem' rfl rfl
  · obtain ⟨item', hitem', rfl⟩ := keyed_eq_some hitem
    rw [hpath, keyed_eq_none] at hunseen
    refine .id hitem' rfl haccepts hne hallowed rfl ?_
    by_contra hkey
    cases hescape : endsInEscape pre with
    | false => exact hkey (percentEscapedToRealBytes_slash hescape post ▸ hunseen)
    | true =>
        exact hclear pre post hpath ⟨hpost, hescape, hunseen, hne, hallowed,
          ⟨item', hitem', haccepts⟩, hkey⟩

theorem not_identified_of_shadowed {pre post : Bytes}
    (hpath : requestPath uri = pre ++ '/'.toUInt8 :: post) (h : Shadowed table pre post) :
    ∃ obj id, allocate (keyed table) uri id₀ = (some obj, id) ∧ ¬ Identified table id₀ obj id := by
  obtain ⟨item, hitem, haccepts⟩ := h.accepts
  have hkeyed : keyed table (percentEscapedToRealBytes pre)
      = some ⟨item.acceptsId, (percentEscapedToRealBytes pre, item.objectClass)⟩ := by
    rw [keyed, hitem]
    rfl
  refine ⟨_, _, allocate_id hpath h.slash ?_ h.ne_nil h.allowed hkeyed haccepts id₀, ?_⟩
  · rw [hpath, keyed_eq_none]
    exact h.unseen
  · intro hident
    cases hident with
    | exact _ hclass =>
        have hkey := congrArg Prod.fst hclass
        simp [bytes] at hkey
    | id _ _ _ _ _ _ hnone => exact h.key hnone

theorem mem_of_endsInEscape {a : Bytes} (h : endsInEscape a = true) : '%'.toUInt8 ∈ a := by
  fun_induction endsInEscape a with
  | case1 => cases h
  | case2 hi lo rest ih => exact List.mem_cons_self ..
  | case3 rest hshort => exact List.mem_cons_self ..
  | case4 c rest hc ih => exact List.mem_cons_of_mem _ (ih h)

/-- Nothing is hidden in a path without escapes. -/
theorem not_shadowed_of_not_mem (h : '%'.toUInt8 ∉ requestPath uri) :
    Clear table uri := by
  intro pre post hpath hshadowed
  apply h
  rw [hpath]
  exact List.mem_append_left _ (mem_of_endsInEscape hshadowed.escape)

/-- An id has no slash, so a path is taken apart in one way. -/
theorem Identified.unique {obj obj' : HttpObject (Bytes × Class)} {id id' : Bytes}
    (h : Identified table id₀ obj id) (h' : Identified table id₀ obj' id')
    (hpath : obj.path = obj'.path) : obj.objectClass = obj'.objectClass ∧ id = id' := by
  have hslash : ∀ {id : Bytes}, (∀ c ∈ id, c ∉ forbidden) → '/'.toUInt8 ∉ id :=
    fun hallowed hmem => hallowed _ hmem (by decide +kernel)
  cases h with
  | exact hitem hclass hid =>
      cases h' with
      | exact hitem' hclass' hid' =>
          rw [← hpath, hitem] at hitem'
          cases hitem'
          exact ⟨by rw [hclass, hclass', hpath], hid.trans hid'.symm⟩
      | id _ _ _ _ _ _ hnone =>
          rw [← hpath, hitem] at hnone
          cases hnone
  | @id key item hitem hclass _ _ hallowed hsplit hnone =>
      cases h' with
      | exact hitem' =>
          rw [hpath, hitem'] at hnone
          cases hnone
      | @id key' item' hitem' hclass' _ _ hallowed' hsplit' _ =>
          have hsplit : key ++ '/'.toUInt8 :: id = key' ++ '/'.toUInt8 :: id' := by
            simpa [bytes, hsplit, hsplit'] using hpath
          have hlen := congrArg (Search.lastIndexOf? '/'.toUInt8) hsplit
          rw [Search.lastIndexOf?_append (hslash hallowed),
            Search.lastIndexOf?_append (hslash hallowed')] at hlen
          obtain ⟨rfl, hid⟩ := List.append_inj hsplit (Option.some.inj hlen)
          rw [hitem] at hitem'
          cases hitem'
          exact ⟨hclass.trans hclass'.symm, List.cons.inj hid |>.2⟩

/-- The path of an object identifies its entry if and only if the last
slash of the request does not hide a key; and where it does for two
requests, one path is one entry and one id. -/
theorem allocate_identified_iff (table : ObjectTable Class) (uri id₀ : Bytes) :
    ((∀ obj id, allocate (keyed table) uri id₀ = (some obj, id) → Identified table id₀ obj id)
      ↔ Clear table uri)
    ∧ ∀ uri', Clear table uri → Clear table uri' →
        ∀ obj id obj' id', allocate (keyed table) uri id₀ = (some obj, id) →
          allocate (keyed table) uri' id₀ = (some obj', id') → obj.path = obj'.path →
          obj.objectClass = obj'.objectClass ∧ id = id' := by
  refine ⟨⟨fun h pre post hpath hshadowed => ?_, fun hclear obj id => ?_⟩, ?_⟩
  · obtain ⟨obj, id, halloc, hnot⟩ := not_identified_of_shadowed hpath hshadowed
    exact hnot (h obj id halloc)
  · exact identified_of_not_shadowed hclear
  · intro uri' hclear hclear' obj id obj' id' h h'
    exact (identified_of_not_shadowed hclear h).unique (identified_of_not_shadowed hclear' h')

theorem allocate_identified_iff_sample :
    Identified standardTable []
        { objectClass := (bytes "/model", .model), path := bytes "/model/7-red" } (bytes "7-red")
      ∧ ∀ obj id, allocate (keyed standardTable) (bytes "/model/7-red/?x") [] = (some obj, id) →
          bytes "/model/7-red" = obj.path →
          (bytes "/model", ObjectClass.model) = obj.objectClass ∧ bytes "7-red" = id := by
  have hclear : Clear standardTable (bytes "/model/7-red") :=
    not_shadowed_of_not_mem (by decide +kernel)
  have hclear' : Clear standardTable (bytes "/model/7-red/?x") :=
    not_shadowed_of_not_mem (by decide +kernel)
  have halloc : allocate (keyed standardTable) (bytes "/model/7-red") []
      = (some { objectClass := (bytes "/model", .model), path := bytes "/model/7-red" },
          bytes "7-red") := by
    decide +kernel
  have h := allocate_identified_iff standardTable (bytes "/model/7-red") []
  exact ⟨h.1.mpr hclear _ _ halloc, fun obj id => h.2 _ hclear hclear' _ _ obj id halloc⟩

/-- A key that takes ids, and a key below it. -/
def nestedTable : ObjectTable Nat :=
  add (add (fun _ => none) (bytes "/ap") true 0) (bytes "/ap/bc") false 1

/-- The slash is the low digit of a `p`: the key `/ap` answers for the path
of the key `/ap/bc`. -/
theorem allocate_shadowed :
    allocate nestedTable (bytes "/a%7/bc") []
        = (some { objectClass := 0, path := bytes "/ap/bc" }, bytes "bc")
      ∧ allocate nestedTable (bytes "/ap/bc") []
        = (some { objectClass := 1, path := bytes "/ap/bc" }, [])
      ∧ ¬ ∀ obj id, allocate (keyed nestedTable) (bytes "/a%7/bc") [] = (some obj, id) →
          Identified nestedTable [] obj id := by
  refine ⟨by decide +kernel, by decide +kernel, fun h => ?_⟩
  have hpath : requestPath (bytes "/a%7/bc") = bytes "/a%7" ++ '/'.toUInt8 :: bytes "bc" := by
    decide +kernel
  have hshadowed : Shadowed nestedTable (bytes "/a%7") (bytes "bc") := {
    slash := by decide +kernel
    escape := by decide +kernel
    unseen := rfl
    ne_nil := by decide +kernel
    allowed := by decide +kernel
    accepts := ⟨⟨true, 0⟩, rfl, rfl⟩
    key := by
      rw [show nestedTable _ = some ⟨false, 1⟩ from rfl]
      exact Option.some_ne_none _ }
  obtain ⟨obj, id, halloc, hnot⟩ := not_identified_of_shadowed hpath hshadowed
  exact hnot (h obj id halloc)

end HttpObjectList

end Simurga
