import Simurga.Pages

/-!
# The URI of a model

From the link on the collection page to the row it shows, and back to the
base URI of the page. The link is built from a number and a colour name,
and taken apart by `allocate` and `parse_id`; the base URI is the path as
it was asked for. The two agree when the number stands there as it would
be printed: `number_canonical_iff` is the one place where the stream parse
of `from_string` and the printing of `to_string` meet.
-/

namespace Simurga

/-! ## The standard table -/

/-- The keys of the standard table. -/
def standardPaths : List Bytes :=
  [bytes "/phylosophy", bytes "/contacts", bytes "/howtobuy", bytes "/lookbook", [],
    bytes "/collection", bytes "/model"]

theorem standardTable_eq_none {path : Bytes} (h : ∀ key ∈ standardPaths, path ≠ key) :
    standardTable path = none := by
  simp only [standardPaths, List.mem_cons, List.not_mem_nil, or_false, forall_eq_or_imp,
    forall_eq] at h
  simp [standardTable, addStandardObjects, HttpObjectList.add, Function.update_of_ne, h]

theorem standardTable_model :
    standardTable (bytes "/model") = some ⟨true, .model⟩ := by
  rw [standardTable, addStandardObjects]
  simp only [List.foldl_cons, List.foldl_nil]
  exact Function.update_self ..

/-- `/model` is the only key that takes ids. -/
theorem eq_model_of_acceptsId {path : Bytes} {item : TableItem ObjectClass}
    (h : standardTable path = some item) (haccepts : item.acceptsId = true) :
    path = bytes "/model" := by
  by_contra hne
  simp only [standardTable, addStandardObjects, List.foldl_cons, List.foldl_nil,
    HttpObjectList.add, Function.update_of_ne hne, Function.update_apply] at h
  split_ifs at h <;> cases h <;> cases haccepts

/-! ## Ids of the alphabet -/

theorem isColorByte_of_isDigit {c : UInt8} (h : Decimal.isDigit c = true) : isColorByte c = true := by
  simp [isColorByte, h]

theorem ne_of_isColorByte {c d : UInt8} (h : isColorByte c = true) (hd : isColorByte d = false) :
    c ≠ d := by
  rintro rfl
  rw [h] at hd
  cases hd

/-- The bytes of an id need no escaping and are not forbidden. -/
theorem isColorByte_spec {c : UInt8} (h : isColorByte c = true) :
    IsPlain c ∧ c ≠ '/'.toUInt8 ∧ c ≠ '?'.toUInt8 ∧ c ∉ HttpObjectList.forbidden := by
  have hforbidden : ∀ d ∈ HttpObjectList.forbidden, isColorByte d = false := by
    decide +kernel
  exact ⟨⟨ne_of_isColorByte h rfl, ne_of_isColorByte h rfl⟩, ne_of_isColorByte h rfl,
    ne_of_isColorByte h rfl, fun hc => ne_of_isColorByte h (hforbidden c hc) rfl⟩

/-- The id of an entry: `to_string(m) + "-" + c`. -/
def modelId (m : UInt32) (color : Bytes) : Bytes := toString m ++ bytes "-" ++ color

theorem modelId_byte {m : UInt32} {color : Bytes} (hcolor : ∀ c ∈ color, isColorByte c = true) :
    ∀ c ∈ modelId m color, isColorByte c = true := by
  intro c hc
  rw [modelId, List.mem_append, List.mem_append] at hc
  rcases hc with (hc | hc) | hc
  · exact isColorByte_of_isDigit (Decimal.digits_digit _ c hc)
  · obtain rfl : c = '-'.toUInt8 := List.mem_singleton.mp hc
    decide
  · exact hcolor c hc

theorem hyphen_not_mem_toString (m : UInt32) : '-'.toUInt8 ∉ toString m := fun h =>
  absurd (Decimal.digits_digit _ _ h) (by decide)

/-- `parse_id` reads the id of an entry back. -/
theorem parseId_modelId (m : UInt32) {color : Bytes} (hcolor : IsColorName color) :
    parseId (modelId m color) = .ok (m, color) := by
  rw [modelId, parseId_hyphen (hyphen_not_mem_toString m) hcolor, fromString_toString]

/-! ## From the link to the object -/

/-- What may follow a link: one slash, a query. -/
def uriTail (slash : Bool) (query : Option Bytes) : Bytes :=
  (if slash then bytes "/" else [])
    ++ match query with
      | some q => '?'.toUInt8 :: q
      | none => []

theorem requestPath_tail {path : Bytes} (hmark : '?'.toUInt8 ∉ path)
    (hlast : path.getLast? ≠ some '/'.toUInt8) (slash : Bool) (query : Option Bytes) :
    HttpObjectList.requestPath (path ++ uriTail slash query) = path := by
  have hslash : '?'.toUInt8 ∉ path ++ bytes "/" := by
    rw [List.mem_append, not_or]
    exact ⟨hmark, by decide⟩
  cases slash with
  | false =>
      cases query with
      | none =>
          rw [show uriTail false none = [] from rfl, List.append_nil]
          exact HttpObjectList.requestPath_of_not_mem hmark hlast
      | some q =>
          show HttpObjectList.requestPath (path ++ '?'.toUInt8 :: q) = path
          rw [HttpObjectList.requestPath_query hmark]
          exact HttpObjectList.requestPath_of_not_mem hmark hlast
  | true =>
      cases query with
      | none =>
          show HttpObjectList.requestPath (path ++ bytes "/") = path
          exact HttpObjectList.requestPath_slash hmark
      | some q =>
          have hassoc : path ++ uriTail true (some q) = (path ++ bytes "/") ++ '?'.toUInt8 :: q := by
            rw [uriTail, if_pos rfl, List.append_assoc]
          rw [hassoc, HttpObjectList.requestPath_query hslash]
          exact HttpObjectList.requestPath_slash hmark

/-- An id of the alphabet is routed to the model class. -/
theorem allocate_model {id : Bytes} (hne : id ≠ []) (hbyte : ∀ c ∈ id, isColorByte c = true)
    (slash : Bool) (query : Option Bytes) (id₀ : Bytes) :
    HttpObjectList.allocate standardTable (bytes "/model/" ++ id ++ uriTail slash query) id₀
      = (some { objectClass := .model, path := bytes "/model/" ++ id }, id) := by
  have hpath : HttpObjectList.requestPath (bytes "/model/" ++ id ++ uriTail slash query)
      = bytes "/model/" ++ id := by
    refine requestPath_tail ?_ ?_ slash query
    · rw [List.mem_append, not_or]
      exact ⟨by decide, fun h => (isColorByte_spec (hbyte _ h)).2.2.1 rfl⟩
    · rw [List.getLast?_append_of_ne_nil _ hne]
      intro h
      exact (isColorByte_spec (hbyte _ (List.mem_of_getLast? h))).2.1 rfl
  have hplain : percentEscapedToRealBytes id = id :=
    percentEscapedToRealBytes_plain fun c hc => (isColorByte_spec (hbyte c hc)).1
  have hwhole : percentEscapedToRealBytes (bytes "/model/" ++ id) = bytes "/model/" ++ id := by
    have hmodel : ∀ c ∈ bytes "/model/", IsPlain c := by
      unfold IsPlain
      decide +kernel
    refine percentEscapedToRealBytes_plain fun c hc => ?_
    rcases List.mem_append.mp hc with h | h
    · exact hmodel c h
    · exact (isColorByte_spec (hbyte c h)).1
  have hexact : standardTable (bytes "/model/" ++ id) = none := by
    -- no key goes on behind "/model"
    have hkeys : ∀ key ∈ standardPaths, key.take 7 ≠ bytes "/model/" := by decide
    refine standardTable_eq_none fun key hkey he => hkeys key hkey ?_
    rw [← he]
    exact List.take_left' rfl
  have hsplit : HttpObjectList.requestPath (bytes "/model/" ++ id ++ uriTail slash query)
      = bytes "/model" ++ '/'.toUInt8 :: id :=
    hpath.trans (List.append_assoc (bytes "/model") (bytes "/") id)
  have hnone : standardTable (percentEscapedToRealBytes
      (HttpObjectList.requestPath (bytes "/model/" ++ id ++ uriTail slash query))) = none := by
    rw [hpath, hwhole, hexact]
  have hbase : ∀ c ∈ bytes "/model", IsPlain c := by
    unfold IsPlain
    decide +kernel
  have h := HttpObjectList.allocate_id hsplit (fun h => (isColorByte_spec (hbyte _ h)).2.1 rfl)
    hnone (by rwa [hplain])
    (by rw [hplain]; exact fun c hc => (isColorByte_spec (hbyte c hc)).2.2.2)
    (by rw [percentEscapedToRealBytes_plain hbase, standardTable_model]) rfl id₀
  rw [h, hplain, percentEscapedToRealBytes_plain hbase]
  rfl

/-- The link on the collection page, followed with any tail: the URI is
the one the template renders, it is routed to the model class with the
entry's id, and `parse_id` gives the entry's number and colour. -/
theorem collection_link (entry : CollectionView) (hcolor : IsColorName entry.colorName)
    (arguments : ArgumentList) (slash : Bool) (query : Option Bytes) (id₀ : Bytes) :
    (parse collectionHref).bind (yieldTokens arguments (some (collectionItem entry)))
        = .ok (bytes "/model/" ++ modelId entry.modelId entry.colorName)
    ∧ HttpObjectList.allocate standardTable
        (bytes "/model/" ++ modelId entry.modelId entry.colorName ++ uriTail slash query) id₀
      = (some { objectClass := .model
                path := bytes "/model/" ++ modelId entry.modelId entry.colorName },
          modelId entry.modelId entry.colorName)
    ∧ parseId (modelId entry.modelId entry.colorName) = .ok (entry.modelId, entry.colorName) := by
  refine ⟨?_, ?_, parseId_modelId entry.modelId hcolor⟩
  · have hparse : parse collectionHref = .ok [.string (bytes "/model/"), .var (bytes "model_id"),
        .string (bytes "-"), .var (bytes "color_name")] := rfl
    have hid : collectionItem entry (bytes "model_id") = some (toString entry.modelId) := by
      unfold collectionItem
      cases entry.specialPrice <;> rfl
    have hname : collectionItem entry (bytes "color_name") = some entry.colorName := by
      unfold collectionItem
      cases entry.specialPrice <;> rfl
    rw [hparse]
    show yieldTokens arguments (some (collectionItem entry)) _ = _
    simp only [yieldTokens, yieldToken, getVariable, Option.bind_some, hid, hname, bind, Except.bind,
      pure, Except.pure, modelId, List.append_nil, List.append_assoc]
  · have hne : modelId entry.modelId entry.colorName ≠ [] := by
      simp [modelId, hcolor.ne_nil]
    exact allocate_model hne (modelId_byte hcolor.byte) slash query id₀

/-- A colour with a hyphen of its own. -/
theorem collection_link_sample :
    HttpObjectList.allocate standardTable (bytes "/model/4294967295-dark-blue/?a=/b?c") []
        = (some { objectClass := .model, path := bytes "/model/4294967295-dark-blue" },
            bytes "4294967295-dark-blue")
      ∧ parseId (bytes "4294967295-dark-blue") = .ok (4294967295, bytes "dark-blue") :=
  (collection_link ⟨4294967295, bytes "dark-blue", [], 0, none⟩
    ⟨by decide +kernel, by decide +kernel⟩ noArguments true (some (bytes "a=/b?c")) []).2

/-! ## From the request to the base URI -/

/-- The number part of the id in a request: the decoded last part of the
path, up to its first hyphen. -/
def requestNumber (uri : Bytes) : Bytes :=
  let path := HttpObjectList.requestPath uri
  let segment := match Search.lastIndexOf? '/'.toUInt8 path with
    | some pos => path.drop (pos + 1)
    | none => []
  (percentEscapedToRealBytes segment).takeWhile (· ≠ '-'.toUInt8)

/-- The base URI a row's page should have, and what follows from it. -/
structure CanonicalBase (row : ModelView) (base : Bytes) : Prop where
  exact : base = bytes "/model/" ++ toString row.modelId ++ bytes "-" ++ row.colorName ++ bytes "/"
  safe : ∃ id, base = bytes "/model/" ++ id ++ bytes "/" ∧ ∀ c ∈ id, isColorByte c = true
  files : ∀ (data : Bytes) (i : UInt32),
    data ++ bytes "/pub" ++ (base ++ imagePath .big i) = bigFile data row.modelId row.colorName i
    ∧ data ++ bytes "/pub" ++ (base ++ imagePath .preview i)
      = previewFile data row.modelId row.colorName i

theorem canonicalBase_iff {row : ModelView} {base : Bytes} (hcolor : IsColorName row.colorName) :
    CanonicalBase row base ↔ base = bytes "/model/" ++ modelId row.modelId row.colorName ++ bytes "/" := by
  have hid : bytes "/model/" ++ toString row.modelId ++ bytes "-" ++ row.colorName ++ bytes "/"
      = bytes "/model/" ++ modelId row.modelId row.colorName ++ bytes "/" := by
    simp only [modelId, List.append_assoc]
  constructor
  · exact fun h => h.exact.trans hid
  · intro h
    refine ⟨h.trans hid.symm, ⟨_, h, modelId_byte hcolor.byte⟩, fun data i => ?_⟩
    have hpub : bytes "/pub/model/" = bytes "/pub" ++ bytes "/model/" := rfl
    have hbig : bytes "/big_" = bytes "/" ++ bytes "big_" := rfl
    have hpreview : bytes "/preview_" = bytes "/" ++ bytes "preview_" := rfl
    rw [h]
    constructor
    · simp only [bigFile, imagePath, modelId, hpub, hbig, List.append_assoc]
    · simp only [previewFile, imagePath, modelId, hpub, hpreview, List.append_assoc]

/-- A number that is read and printed again is the same text exactly when
it was a numeral that fits. -/
theorem number_canonical_iff (s : Bytes) :
    s = toString (fromString s) ↔ Decimal.IsNumeral s ∧ Decimal.value s < 2 ^ 32 := by
  constructor
  · intro h
    rw [h]
    refine ⟨Decimal.isNumeral_digits _, ?_⟩
    rw [show Decimal.value (toString (fromString s)) = (fromString s).toNat from
      Decimal.value_digits _]
    exact (fromString s).toNat_lt
  · rintro ⟨hnum, hlt⟩
    rw [fromString_digits hnum.digit hlt, toString, UInt32.toNat_ofNat', Nat.mod_eq_of_lt hlt,
      Decimal.digits_value hnum]

theorem takeWhile_number {num rest : Bytes} (h : '-'.toUInt8 ∉ num) :
    (num ++ bytes "-" ++ rest).takeWhile (· ≠ '-'.toUInt8) = num := by
  have hall : ∀ c ∈ num, decide (c ≠ '-'.toUInt8) = true := fun c hc => by
    rw [decide_eq_true_eq]
    rintro rfl
    exact h hc
  rw [List.append_assoc, List.takeWhile_append_of_pos hall]
  show num ++ List.takeWhile _ ('-'.toUInt8 :: rest) = num
  rw [List.takeWhile_cons_of_neg (by simp), List.append_nil]

/-- The view and the templates of the witnesses. -/
def sampleView : List ModelView :=
  [⟨7, bytes "red", [], [], 1, 8, none, 100, none, []⟩]

def sampleTemplates : TemplateList := fun _ => some [.var (bytes "base_uri")]

end Simurga
