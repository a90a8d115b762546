import Simurga.TemplateScope

/-!
# Opaque values

What the engine looks at in its arguments: which names there are, which
values are empty, how long arrays are (`shapeOf`). A template can be
rendered with these alone, into literals and references (`segmentsAll`),
and the values only fill the references in (`yieldTokens_segments`). Names
that stand in no tag do not matter (`yieldTokens_restrict`).
-/

namespace Simurga

/-! ## Shapes -/

abbrev ItemShape := Bytes → Option Bool

/-- An argument without its values: whether a text is empty, and which keys
the items of an array have, empty or not. -/
inductive ArgumentShape where
  | string (empty : Bool)
  | array (items : List ItemShape)

abbrev ArgumentShapes := Bytes → Option ArgumentShape

def itemShape (item : Item) : ItemShape := fun key => (item key).map List.isEmpty

def TemplateArgument.shape : TemplateArgument → ArgumentShape
  | .string value => .string value.isEmpty
  | .array items => .array (items.map itemShape)

def shapeOf (arguments : ArgumentList) : ArgumentShapes := fun name =>
  (arguments name).map TemplateArgument.shape

/-- The shapes of the items of an array argument. -/
def itemShapesOf (shapes : ArgumentShapes) (name : Bytes) : List ItemShape :=
  match shapes name with
  | some (.array items) => items
  | _ => []

theorem itemShapesOf_shapeOf (arguments : ArgumentList) (name : Bytes) :
    itemShapesOf (shapeOf arguments) name = (itemsOf arguments name).map itemShape := by
  rw [itemShapesOf, shapeOf, itemsOf]
  cases arguments name with
  | none => rfl
  | some argument => cases argument <;> rfl

/-! ## Segments -/

/-- A piece of the output: text of the template, or the value that stands at
a name of the arguments. -/
inductive Segment where
  | literal (data : Bytes)
  | scalar (name : Bytes)
  | item (array : Bytes) (index : Nat) (key : Bytes)
deriving DecidableEq

def Segment.value (arguments : ArgumentList) : Segment → Bytes
  | .literal data => data
  | .scalar name =>
      match arguments name with
      | some (.string value) => value
      | _ => []
  | .item array index key => ((itemsOf arguments array)[index]?.bind (· key)).getD []

/-- The item that a body is rendered for: an array and an index of it. -/
abbrev ItemPlace := Option (Bytes × Nat)

def itemAt (arguments : ArgumentList) (place : ItemPlace) : Option Item :=
  place.bind fun (array, index) => (itemsOf arguments array)[index]?

/-- A text among the global arguments, and whether it is empty. -/
def scalarReference (shapes : ArgumentShapes) (name : Bytes) : Option (Segment × Bool) :=
  match shapes name with
  | some (.string empty) => some (.scalar name, empty)
  | _ => none

/-- The same for the keys of an item. -/
def itemReference (shapes : ArgumentShapes) (place : ItemPlace) (name : Bytes) : Option (Segment × Bool) :=
  place.bind fun (array, index) => ((itemShapesOf shapes array)[index]?.bind (· name)).map
    fun empty => (.item array index name, empty)

/-- Where `get_variable` finds the text of a name. -/
def referenceOf (shapes : ArgumentShapes) (place : ItemPlace) (name : Bytes) : Option (Segment × Bool) :=
  (itemReference shapes place name).or (scalarReference shapes name)

/-- Two outputs behind each other; none if one of them throws. -/
def appendSegments (x y : Option (List Segment)) : Option (List Segment) := do
  let before ← x
  let after ← y
  pure (before ++ after)

/-- The loop of `yield_foreach` over the indices from `i` on. -/
def segmentItems (sep : Option (List Segment)) (body : Nat → Option (List Segment)) :
    Nat → Nat → Option (List Segment)
  | _, 0 => some []
  | i, n + 1 =>
      appendSegments (appendSegments (if i > 0 then sep else some []) (body i))
        (segmentItems sep body (i + 1) n)

mutual

/-- The output of a token for all arguments of a shape; none if it throws. -/
def Token.segments (shapes : ArgumentShapes) (place : ItemPlace) : Token → Option (List Segment)
  | .string data => some [.literal data]
  | .var data => some ((referenceOf shapes place data).map Prod.fst).toList
  | .foreach data body sep =>
      segmentItems (segmentsAll shapes none sep) (fun i => segmentsAll shapes (some (data, i)) body) 0
        (itemShapesOf shapes data).length
  | .ifElse data ifTrue ifFalse =>
      if (referenceOf shapes place data).all Prod.snd then segmentsAll shapes place ifFalse
      else segmentsAll shapes place ifTrue
  | .sepMark | .endMark | .elseMark => none

def segmentsAll (shapes : ArgumentShapes) (place : ItemPlace) : TokenList → Option (List Segment)
  | [] => some []
  | t :: ts => appendSegments (t.segments shapes place) (segmentsAll shapes place ts)

end

/-! ## The engine -/

section Engine

variable (arguments : ArgumentList)

/-- The engine throws where there are no segments, and puts out their values
where there are. -/
def Fills (r : Except Thrown Bytes) : Option (List Segment) → Prop
  | none => ∃ e, r = .error e
  | some segments => r = .ok (segments.flatMap (·.value arguments))

variable {arguments}

theorem Fills.append {x y : Except Thrown Bytes} {before after : Option (List Segment)}
    (hx : Fills arguments x before) (hy : Fills arguments y after) :
    Fills arguments (do
      let s ← x
      let s' ← y
      pure (s ++ s')) (appendSegments before after) := by
  cases before with
  | none =>
      obtain ⟨e, rfl⟩ := hx
      exact ⟨e, rfl⟩
  | some before =>
      obtain rfl : x = .ok _ := hx
      cases after with
      | none =>
          obtain ⟨e, rfl⟩ := hy
          exact ⟨e, rfl⟩
      | some after =>
          obtain rfl : y = .ok _ := hy
          exact congrArg Except.ok List.flatMap_append.symm

theorem fills_nil : Fills arguments (.ok []) (some []) := rfl

theorem yieldItems_segments {sep : Except Thrown Bytes} {body : Item → Except Thrown Bytes}
    {sepSegments : Option (List Segment)} {bodySegments : Nat → Option (List Segment)}
    (hsep : Fills arguments sep sepSegments) (items : List Item) (i : Nat)
    (hbody : ∀ j item, items[j]? = some item →
      Fills arguments (body item) (bodySegments (i + j))) :
    Fills arguments (yieldItems sep body i items)
      (segmentItems sepSegments bodySegments i items.length) := by
  induction items generalizing i with
  | nil => exact fills_nil
  | cons item items ih =>
      have hbefore : Fills arguments (if i > 0 then sep else .ok [])
          (if i > 0 then sepSegments else some []) := by
        by_cases hi : i > 0
        · rw [if_pos hi, if_pos hi]
          exact hsep
        · rw [if_neg hi, if_neg hi]
          exact fills_nil
      have hafter := ih (i + 1) fun j item hitem => by
        rw [Nat.add_assoc, Nat.add_comm 1 j]
        exact hbody (j + 1) item hitem
      rw [yieldItems_cons]
      exact (hbefore.append (hbody 0 item rfl)).append hafter

/-- The reference leads to the text; there is none for no text. -/
def Refers (arguments : ArgumentList) (text : Bytes) : Option (Segment × Bool) → Prop
  | none => text = []
  | some (segment, empty) => segment.value arguments = text ∧ empty = text.isEmpty

theorem Refers.value_eq {text : Bytes} {reference : Option (Segment × Bool)}
    (h : Refers arguments text reference) :
    (reference.map Prod.fst).toList.flatMap (·.value arguments) = text := by
  cases reference with
  | none => exact Eq.symm h
  | some reference => simpa using h.1

theorem Refers.empty_iff {text : Bytes} {reference : Option (Segment × Bool)}
    (h : Refers arguments text reference) : reference.all Prod.snd = true ↔ text = [] := by
  cases reference with
  | none => exact ⟨fun _ => h, fun _ => rfl⟩
  | some reference => rw [Option.all_some, h.2, List.isEmpty_iff]

/-- The global arguments: `to_string` of an array is empty. -/
theorem scalarReference_refers (name : Bytes) :
    Refers arguments (getVariable arguments none name) (scalarReference (shapeOf arguments) name) := by
  rw [scalarReference, shapeOf, getVariable, Option.bind_none]
  cases hname : arguments name with
  | none => rfl
  | some argument =>
      cases argument with
      | string value =>
          refine ⟨?_, rfl⟩
          rw [Segment.value, hname]
          rfl
      | array items => rfl

theorem itemReference_eq (place : ItemPlace) (name : Bytes) :
    itemReference (shapeOf arguments) place name
      = place.bind fun (array, index) => ((itemAt arguments place).bind (· name)).map
          fun value => (.item array index name, value.isEmpty) := by
  cases place with
  | none => rfl
  | some place =>
      obtain ⟨array, index⟩ := place
      rw [itemReference, Option.bind_some, Option.bind_some]
      dsimp only [itemAt, Option.bind_some]
      rw [itemShapesOf_shapeOf, List.getElem?_map]
      cases (itemsOf arguments array)[index]? with
      | none => rfl
      | some item =>
          dsimp only [itemShape, Option.map_some, Option.bind_some]
          rw [Option.map_map]
          rfl

/-- `get_variable` decides by the shape only where it looks. -/
theorem referenceOf_refers (place : ItemPlace) (name : Bytes) :
    Refers arguments (getVariable arguments (itemAt arguments place) name)
      (referenceOf (shapeOf arguments) place name) := by
  rw [referenceOf, itemReference_eq]
  cases place with
  | none => exact scalarReference_refers name
  | some place =>
      obtain ⟨array, index⟩ := place
      rw [Option.bind_some, getVariable]
      dsimp only
      cases hvalue : (itemAt arguments (some (array, index))).bind (· name) with
      | none => exact scalarReference_refers name
      | some value =>
          refine ⟨?_, rfl⟩
          rw [itemAt, Option.bind_some] at hvalue
          rw [Segment.value, hvalue]
          rfl

mutual

theorem yieldToken_segments : ∀ (t : Token) (place : ItemPlace),
    Fills arguments (yieldToken arguments (itemAt arguments place) t)
      (t.segments (shapeOf arguments) place)
  | .string data, _ => by
      rw [yieldToken, Token.segments]
      simp [Fills, Segment.value]
  | .var data, place => by
      rw [yieldToken, Token.segments]
      exact congrArg Except.ok (referenceOf_refers place data).value_eq.symm
  | .foreach data body sep, place => by
      rw [yieldToken_foreach, Token.segments, itemShapesOf_shapeOf, List.length_map]
      refine yieldItems_segments (yieldTokens_segments sep none) _ 0 fun j item hitem => ?_
      have hbody := yieldTokens_segments body (some (data, j))
      rw [show itemAt arguments (some (data, j)) = some item from hitem] at hbody
      rw [Nat.zero_add]
      exact hbody
  | .ifElse data ifTrue ifFalse, place => by
      rw [yieldToken, Token.segments]
      by_cases hempty : getVariable arguments (itemAt arguments place) data = []
      · rw [if_pos hempty, if_pos ((referenceOf_refers place data).empty_iff.mpr hempty)]
        exact yieldTokens_segments ifFalse place
      · rw [if_neg hempty, if_neg (mt (referenceOf_refers place data).empty_iff.mp hempty)]
        exact yieldTokens_segments ifTrue place
  | .sepMark, _ => by
      rw [yieldToken, Token.segments]
      exact ⟨_, rfl⟩
  | .endMark, _ => by
      rw [yieldToken, Token.segments]
      exact ⟨_, rfl⟩
  | .elseMark, _ => by
      rw [yieldToken, Token.segments]
      exact ⟨_, rfl⟩

theorem yieldTokens_segments : ∀ (ts : TokenList) (place : ItemPlace),
    Fills arguments (yieldTokens arguments (itemAt arguments place) ts)
      (segmentsAll (shapeOf arguments) place ts)
  | [], _ => by
      rw [yieldTokens, segmentsAll]
      exact fills_nil
  | t :: ts, place => by
      rw [yieldTokens, segmentsAll]
      exact (yieldToken_segments t place).append (yieldTokens_segments ts place)

end

end Engine

/-! ## Names -/

mutual

/-- The token and all tokens in it. -/
def Token.all : Token → List Token
  | .foreach data body sep => .foreach data body sep :: (allTokens body ++ allTokens sep)
  | .ifElse data ifTrue ifFalse =>
      .ifElse data ifTrue ifFalse :: (allTokens ifTrue ++ allTokens ifFalse)
  | .string data => [.string data]
  | .var data => [.var data]
  | .sepMark => [.sepMark]
  | .endMark => [.endMark]
  | .elseMark => [.elseMark]

def allTokens : TokenList → List Token
  | [] => []
  | t :: ts => t.all ++ allTokens ts

end

/-- The template has the literal as a text, or the reference as a tag; that
to an item stands in the body for its array. -/
def Segment.Named (tokens : List Token) : Segment → Prop
  | .literal data => .string data ∈ tokens
  | .scalar name => .var name ∈ tokens
  | .item array _ key => ∃ body sep, .foreach array body sep ∈ tokens ∧ .var key ∈ allTokens body

/-- The same in a body that is rendered for an item. -/
def Segment.NamedAt (place : ItemPlace) (tokens : List Token) (segment : Segment) : Prop :=
  segment.Named tokens
    ∨ ∃ array index key, place = some (array, index) ∧ segment = .item array index key
      ∧ .var key ∈ tokens

theorem Segment.NamedAt.mono {place : ItemPlace} {tokens tokens' : List Token} {segment : Segment}
    (h : segment.NamedAt place tokens) (hsub : tokens ⊆ tokens') : segment.NamedAt place tokens' := by
  rcases h with h | ⟨array, index, key, hplace, hsegment, hkey⟩
  · left
    cases segment with
    | literal data => exact hsub h
    | scalar name => exact hsub h
    | item array index key =>
        obtain ⟨body, sep, hmem, hkey⟩ := h
        exact ⟨body, sep, hsub hmem, hkey⟩
  · exact Or.inr ⟨array, index, key, hplace, hsegment, hsub hkey⟩

/-- Every segment there is has the property. -/
def AllSegments (p : Segment → Prop) (segments : Option (List Segment)) : Prop :=
  ∀ l, segments = some l → ∀ segment ∈ l, p segment

section AllSegments

variable {p q : Segment → Prop}

theorem AllSegments.mono {x : Option (List Segment)} (h : AllSegments p x)
    (hpq : ∀ segment, p segment → q segment) : AllSegments q x :=
  fun l hl segment hmem => hpq segment (h l hl segment hmem)

theorem allSegments_none : AllSegments p none := fun _ h => nomatch h

theorem allSegments_some {l : List Segment} (h : ∀ segment ∈ l, p segment) :
    AllSegments p (some l) := fun l' hl => by
  obtain rfl := Option.some.inj hl
  exact h

theorem AllSegments.append {x y : Option (List Segment)} (hx : AllSegments p x)
    (hy : AllSegments p y) : AllSegments p (appendSegments x y) := by
  cases x with
  | none => exact allSegments_none
  | some before =>
      cases y with
      | none => exact allSegments_none
      | some after =>
          refine allSegments_some fun segment hmem => ?_
          rcases List.mem_append.mp hmem with h | h
          · exact hx _ rfl segment h
          · exact hy _ rfl segment h

theorem allSegments_items {sep : Option (List Segment)} {body : Nat → Option (List Segment)}
    (hsep : AllSegments p sep) (hbody : ∀ i, AllSegments p (body i)) (n i : Nat) :
    AllSegments p (segmentItems sep body i n) := by
  induction n generalizing i with
  | zero => exact allSegments_some (by simp)
  | succ n ih =>
      have hbefore : AllSegments p (if i > 0 then sep else some []) := by
        by_cases hi : i > 0
        · rw [if_pos hi]
          exact hsep
        · rw [if_neg hi]
          exact allSegments_some (by simp)
      exact (hbefore.append (hbody i)).append (ih (i + 1))

end AllSegments

/-- The reference of a name is to that name. -/
theorem referenceOf_named {shapes : ArgumentShapes} {place : ItemPlace} {name : Bytes}
    {tokens : List Token} (hvar : .var name ∈ tokens) {reference : Segment × Bool}
    (h : referenceOf shapes place name = some reference) : reference.1.NamedAt place tokens := by
  rcases Option.or_eq_some_iff.mp h with hitem | ⟨-, hscalar⟩
  · obtain ⟨⟨array, index⟩, hplace, hitem⟩ := Option.bind_eq_some_iff.mp hitem
    obtain ⟨empty, -, rfl⟩ := Option.map_eq_some_iff.mp hitem
    exact Or.inr ⟨array, index, name, hplace, rfl, hvar⟩
  · unfold scalarReference at hscalar
    split at hscalar
    · obtain rfl := Option.some.inj hscalar
      exact Or.inl hvar
    · cases hscalar

mutual

theorem segments_named (shapes : ArgumentShapes) : ∀ (t : Token) (place : ItemPlace),
    AllSegments (Segment.NamedAt place t.all) (t.segments shapes place)
  | .string data, place => by
      rw [Token.segments, Token.all]
      exact allSegments_some fun segment hmem => by
        rw [List.mem_singleton.mp hmem]
        exact Or.inl (List.mem_singleton_self _)
  | .var data, place => by
      rw [Token.segments, Token.all]
      refine allSegments_some fun segment hmem => ?_
      obtain ⟨reference, hreference, rfl⟩ := Option.map_eq_some_iff.mp (Option.mem_toList.mp hmem)
      exact referenceOf_named (List.mem_singleton_self _) hreference
  | .foreach data body sep, place => by
      rw [Token.segments, Token.all]
      refine allSegments_items ?_ (fun i => ?_) _ _
      · refine (segmentsAll_named shapes sep none).mono fun segment h => ?_
        rcases h with h | ⟨_, _, _, hplace, _⟩
        · exact Segment.NamedAt.mono (Or.inl h) (by simp [List.subset_def]; tauto)
        · cases hplace
      · refine (segmentsAll_named shapes body (some (data, i))).mono fun segment h => ?_
        rcases h with h | ⟨array, index, key, hplace, rfl, hkey⟩
        · exact Segment.NamedAt.mono (Or.inl h) (by simp [List.subset_def]; tauto)
        · cases hplace
          exact Or.inl ⟨body, sep, List.mem_cons_self, hkey⟩
  | .ifElse data ifTrue ifFalse, place => by
      rw [Token.segments, Token.all]
      split
      · exact (segmentsAll_named shapes ifFalse place).mono fun segment h =>
          h.mono (by simp [List.subset_def]; tauto)
      · exact (segmentsAll_named shapes ifTrue place).mono fun segment h =>
          h.mono (by simp [List.subset_def]; tauto)
  | .sepMark, _ => by
      rw [Token.segments]
      exact allSegments_none
  | .endMark, _ => by
      rw [Token.segments]
      exact allSegments_none
  | .elseMark, _ => by
      rw [Token.segments]
      exact allSegments_none

theorem segmentsAll_named (shapes : ArgumentShapes) : ∀ (ts : TokenList) (place : ItemPlace),
    AllSegments (Segment.NamedAt place (allTokens ts)) (segmentsAll shapes place ts)
  | [], _ => by
      rw [segmentsAll]
      exact allSegments_some (by simp)
  | t :: ts, place => by
      rw [segmentsAll, allTokens]
      refine ((segments_named shapes t place).mono fun segment h => ?_).append
        ((segmentsAll_named shapes ts place).mono fun segment h => ?_)
      · exact h.mono (List.subset_append_left _ _)
      · exact h.mono (List.subset_append_right _ _)

end

/-! ## Other names -/

/-- The name in a tag. -/
def Token.name? : Token → Option Bytes
  | .var data | .foreach data _ _ | .ifElse data _ _ => some data
  | .string _ | .sepMark | .endMark | .elseMark => none

/-- The names that stand in the tags of a template. -/
def namesOf (tokens : TokenList) : List Bytes := (allTokens tokens).filterMap Token.name?

/-- A map on these names only. -/
def restrictTo {α : Type} (names : List Bytes) (map : Bytes → Option α) : Bytes → Option α :=
  fun name => if name ∈ names then map name else none

def TemplateArgument.restrict (names : List Bytes) : TemplateArgument → TemplateArgument
  | .string value => .string value
  | .array items => .array (items.map (restrictTo names))

/-- The arguments and the items of arrays with these names only. -/
def restrictArguments (names : List Bytes) (arguments : ArgumentList) : ArgumentList :=
  restrictTo names fun name => (arguments name).map (TemplateArgument.restrict names)

theorem restrictTo_of_mem {α : Type} {names : List Bytes} {name : Bytes} (h : name ∈ names)
    (map : Bytes → Option α) : restrictTo names map name = map name := if_pos h

section Restrict

variable {names : List Bytes} {arguments : ArgumentList}

theorem getVariable_restrict {name : Bytes} (h : name ∈ names) (arrayItem : Option Item) :
    getVariable (restrictArguments names arguments) (arrayItem.map (restrictTo names)) name
      = getVariable arguments arrayItem name := by
  have hitem : (arrayItem.map (restrictTo names)).bind (· name) = arrayItem.bind (· name) := by
    cases arrayItem with
    | none => rfl
    | some item => exact restrictTo_of_mem h item
  rw [getVariable, getVariable, hitem, restrictArguments, restrictTo_of_mem h]
  cases arguments name with
  | none => rfl
  | some argument => cases argument <;> rfl

theorem itemsOf_restrict {name : Bytes} (h : name ∈ names) :
    itemsOf (restrictArguments names arguments) name
      = (itemsOf arguments name).map (restrictTo names) := by
  rw [itemsOf, itemsOf, restrictArguments, restrictTo_of_mem h]
  cases arguments name with
  | none => rfl
  | some argument => cases argument <;> rfl

theorem yieldItems_map (sep : Except Thrown Bytes) (body : Item → Except Thrown Bytes)
    (f : Item → Item) (items : List Item) (i : Nat) :
    yieldItems sep body i (items.map f) = yieldItems sep (fun item => body (f item)) i items := by
  induction items generalizing i with
  | nil => rfl
  | cons item items ih => rw [List.map_cons, yieldItems, yieldItems, ih]

mutual

theorem yieldToken_restrict : ∀ (t : Token) (arrayItem : Option Item),
    t.all.filterMap Token.name? ⊆ names →
      yieldToken (restrictArguments names arguments) (arrayItem.map (restrictTo names)) t
        = yieldToken arguments arrayItem t
  | .string _, _, _ => by rw [yieldToken, yieldToken]
  | .var data, arrayItem, h => by
      rw [yieldToken, yieldToken, getVariable_restrict (h (by simp [Token.all, Token.name?]))]
  | .foreach data body sep, _, h => by
      rw [Token.all, List.filterMap_cons, List.filterMap_append] at h
      obtain ⟨hdata, hsub⟩ := List.cons_subset.mp h
      obtain ⟨hbody, hsep⟩ := List.append_subset.mp hsub
      have hitem : (fun item => yieldTokens (restrictArguments names arguments)
            (some (restrictTo names item)) body)
          = fun item => yieldTokens arguments (some item) body :=
        funext fun item => yieldTokens_restrict body (some item) hbody
      have hnone := yieldTokens_restrict sep none hsep
      rw [Option.map_none] at hnone
      rw [yieldToken_foreach, yieldToken_foreach, itemsOf_restrict hdata, yieldItems_map, hitem, hnone]
  | .ifElse data ifTrue ifFalse, arrayItem, h => by
      rw [Token.all, List.filterMap_cons, List.filterMap_append] at h
      obtain ⟨hdata, hsub⟩ := List.cons_subset.mp h
      obtain ⟨htrue, hfalse⟩ := List.append_subset.mp hsub
      rw [yieldToken, yieldToken, getVariable_restrict hdata,
        yieldTokens_restrict ifTrue arrayItem htrue, yieldTokens_restrict ifFalse arrayItem hfalse]
  | .sepMark, _, _ => by rw [yieldToken, yieldToken]
  | .endMark, _, _ => by rw [yieldToken, yieldToken]
  | .elseMark, _, _ => by rw [yieldToken, yieldToken]

theorem yieldTokens_restrict : ∀ (ts : TokenList) (arrayItem : Option Item), namesOf ts ⊆ names →
    yieldTokens (restrictArguments names arguments) (arrayItem.map (restrictTo names)) ts
      = yieldTokens arguments arrayItem ts
  | [], _, _ => by rw [yieldTokens, yieldTokens]
  | t :: ts, arrayItem, h => by
      rw [namesOf, allTokens, List.filterMap_append] at h
      obtain ⟨ht, hts⟩ := List.append_subset.mp h
      rw [yieldTokens, yieldTokens, yieldToken_restrict t arrayItem ht,
        yieldTokens_restrict ts arrayItem hts]

end

end Restrict

/-- Rendering looks at the shape of the arguments and copies their values:
for all arguments of a shape it throws, or it puts out one sequence of
literals and references with the values filled in. Names that stand in no
tag have no effect. -/
theorem yield_opaque (tokens : TokenList) (shapes : ArgumentShapes) :
    ((∀ arguments, shapeOf arguments = shapes → ∃ e, yield tokens arguments = .error e)
      ∨ ∃ segments : List Segment, (∀ segment ∈ segments, segment.Named (allTokens tokens))
        ∧ ∀ arguments, shapeOf arguments = shapes →
            yield tokens arguments = .ok (segments.flatMap (·.value arguments)))
    ∧ ∀ arguments, yield tokens (restrictArguments (namesOf tokens) arguments) = yield tokens arguments := by
  refine ⟨?_, fun arguments => yieldTokens_restrict tokens none (List.Subset.refl _)⟩
  have hfills : ∀ arguments, shapeOf arguments = shapes →
      Fills arguments (yield tokens arguments) (segmentsAll shapes none tokens) := by
    rintro arguments rfl
    exact yieldTokens_segments tokens none
  cases hsegments : segmentsAll shapes none tokens with
  | none =>
      rw [hsegments] at hfills
      exact Or.inl hfills
  | some segments =>
      rw [hsegments] at hfills
      refine Or.inr ⟨segments, fun segment hmem => ?_, hfills⟩
      rcases segmentsAll_named shapes tokens none segments hsegments segment hmem with
        h | ⟨_, _, _, hplace, _⟩
      · exact h
      · cases hplace

/-- A value with brackets in it, an empty text, a list of two items. -/
example : segmentsAll
    (shapeOf fun name =>
      if name = bytes "a" then some (.array [fun _ => some (bytes "<%y%>"), fun _ => none])
      else if name = bytes "x" then some (.string [])
      else none)
    none [.ifElse (bytes "x") [] [.string (bytes "-")], .foreach (bytes "a") [.var (bytes "x")] []]
    = some [.literal (bytes "-"), .item (bytes "a") 0 (bytes "x"), .scalar (bytes "x")] := by rfl

end Simurga
