import Simurga.HttpService
import Simurga.Template

/-!
# The pages

`model.cpp`, `collection.cpp` and `HttpObject::set_page`: what the
handlers take from the database and hand to the templates.

The database is the content of the view that is read, the loaded
templates a lookup function. Both are parameters of every page, so a
statement about a page is about every content of them.
-/

namespace Simurga

/-- `TemplateList`: the loaded templates by name. -/
abbrev TemplateList := Bytes → Option TokenList

/-- `TemplateList::get`. -/
def TemplateList.get (templates : TemplateList) (name : Bytes) : Except Thrown TokenList :=
  match templates name with
  | some body => .ok body
  | none => .error (.runtimeError (bytes "Template " ++ name ++ bytes " not found"))

def noArguments : ArgumentList := fun _ => none

/-! ## `set_page` -/

/-- The arguments of the main template in `set_page(title, body)`. -/
def pageArguments (path title body : Bytes) : ArgumentList :=
  let args := addArgument noArguments (bytes "title") title
  let args := addArgument args (bytes "body") body
  addArgument args (bytes "base_uri") (path ++ bytes "/")

/-- `HttpObject::set_page(title, body)`. -/
def HttpObject.setPage {Class : Type} (obj : HttpObject Class) (templates : TemplateList)
    (title body : Bytes) : Except Thrown (HttpObject Class) := do
  let main ← templates.get (bytes "main")
  let data ← yield main (pageArguments obj.path title body)
  pure { obj with data := data }

/-! ## Numbers on a page -/

/-- `price`: two fraction digits unless there are no cents. -/
def price (value : UInt32) : Bytes :=
  let cent := value % 100
  toString (value / 100)
    ++ if cent = 0 then []
      else bytes "." ++ (if cent < 10 then bytes "0" else []) ++ toString cent

inductive ImageType where
  | big | preview

def imagePath (imageType : ImageType) (num : UInt32) : Bytes :=
  (match imageType with
    | .big => bytes "big_"
    | .preview => bytes "preview_") ++ toString num ++ bytes ".jpg"

/-- The `switch` of `size_to_string`. -/
def sizeRange (size : UInt32) : Bytes :=
  if size = 8 then bytes "38-40"
  else if size = 16 then bytes "42-44"
  else if size = 32 then bytes "44-46"
  else if size = 64 then bytes "46-48"
  else if size = 128 then bytes "48-50"
  else if size = 256 then bytes "50-52"
  else if size = 512 then bytes "52-54"
  else []

/-- The values the loop of `size_to_string` goes through:
`size = Size_XS; size <= Size_XXL; size <<= 1`. -/
def loopSizes : List UInt32 := [8, 16, 32, 64, 128, 256]

/-- `size_to_string`. -/
def sizeToString (sizes : UInt32) : Bytes :=
  loopSizes.foldl (fun result size =>
    if sizes &&& size = 0 then result
    else (if result ≠ [] then result ++ bytes ", " else result) ++ sizeRange size) []

/-! ## `model.cpp` -/

/-- A row of `model_view_ru`. -/
structure ModelView where
  modelId : UInt32
  colorName : Bytes
  colorDesc : Bytes
  modelTitle : Bytes
  numImages : UInt32
  sizes : UInt32
  materialDesc : Option Bytes
  price : UInt32
  specialPrice : Option UInt32
  desc : Bytes

def isLetter (c : UInt8) : Bool := (97 ≤ c && c ≤ 122) || (65 ≤ c && c ≤ 90)

def isSpecial (c : UInt8) : Bool := c == '-'.toUInt8 || c == '_'.toUInt8

/-- A byte of `[A-Za-z0-9_-]`. -/
def isColorByte (c : UInt8) : Bool := isLetter c || Decimal.isDigit c || isSpecial c

/-- `parse_id`. -/
def parseId (id : Bytes) : Except Thrown (UInt32 × Bytes) :=
  match find "-" id 0 with
  | none => .error notFound
  | some pos =>
      let modelId := fromString (id.take pos)
      let colorName := id.drop (pos + 1)
      if colorName = [] then .error notFound
      else if ∃ c ∈ colorName, isColorByte c = false then .error notFound
      else .ok (modelId, colorName)

/-- ``select * from `model_view_ru` where `model_id` = ? and `color_name` = ? limit 1``. -/
def modelQuery (view : List ModelView) (modelId : UInt32) (colorName : Bytes) : List ModelView :=
  (view.filter fun row => row.modelId = modelId ∧ row.colorName = colorName).take 1

/-- `ModelHttpObject::get` up to the row it shows. -/
def modelRow (view : List ModelView) (id : Bytes) : Except Thrown ModelView := do
  let (modelId, colorName) ← parseId id
  match modelQuery view modelId colorName with
  | [] => .error notFound
  | row :: _ => .ok row

/-- An item of the `previews` argument. -/
def previewItem (i : UInt32) : Item :=
  let item := Function.update (fun _ => none) (bytes "big") (some (imagePath .big i))
  let item := Function.update item (bytes "preview") (some (imagePath .preview i))
  Function.update item (bytes "index") (some (toString (i + 1)))

/-- The arguments of the `model` template. -/
def modelArguments (model : ModelView) : ArgumentList :=
  let args := addArgument noArguments (bytes "model_id") (toString model.modelId)
  let args := addArgument args (bytes "color_name") model.colorName
  let args := addArgument args (bytes "color_desc") model.colorDesc
  let args := addArgument args (bytes "model_title") model.modelTitle
  let args := addArgument args (bytes "sizes") (sizeToString model.sizes)
  let args := addArgument args (bytes "material_desc") (model.materialDesc.getD [])
  let args := addArgument args (bytes "price") (Simurga.price model.price)
  let args := addArgument args (bytes "desc") model.desc
  let args := addArgument args (bytes "default_image") (imagePath .big 0)
  let args := match model.specialPrice with
    | some special => addArgument args (bytes "special_price") (Simurga.price special)
    | none => args
  let images := (List.range model.numImages.toNat).map fun i => previewItem (UInt32.ofNat i)
  Function.update args (bytes "previews") (some (.array images))

/-- `ModelHttpObject::get`. -/
def ModelHttpObject.get {Class : Type} (templates : TemplateList) (view : List ModelView)
    (obj : HttpObject Class) (id : Bytes) : Except Thrown (HttpObject Class) := do
  let model ← modelRow view id
  let tpl ← templates.get (bytes "model")
  let body ← yield tpl (modelArguments model)
  obj.setPage templates model.modelTitle body

/-! ## `collection.cpp` -/

/-- A row of `collection_view_ru`. -/
structure CollectionView where
  modelId : UInt32
  colorName : Bytes
  title : Bytes
  price : UInt32
  specialPrice : Option UInt32

/-- An item of the `collection` argument. -/
def collectionItem (view : CollectionView) : Item :=
  let item := Function.update (fun _ => none) (bytes "model_id") (some (toString view.modelId))
  let item := Function.update item (bytes "color_name") (some view.colorName)
  let item := Function.update item (bytes "title") (some view.title)
  let item := Function.update item (bytes "price") (some (Simurga.price view.price))
  match view.specialPrice with
  | some special =>
      Function.update item (bytes "special_price") (some (Simurga.price special))
  | none => item

/-- The `href` of an entry in `collection.tpl`. -/
def collectionHref : Bytes := bytes "/model/<%model_id%>-<%color_name%>"

/-! ## `Simurga.pm` -/

/-- `Simurga::ModelColor::_big`; `data` is `$DATA`. -/
def bigFile (data : Bytes) (modelId : UInt32) (colorName : Bytes) (num : UInt32) : Bytes :=
  data ++ bytes "/pub/model/" ++ toString modelId ++ bytes "-" ++ colorName ++ bytes "/big_"
    ++ toString num ++ bytes ".jpg"

/-- `Simurga::ModelColor::_preview`. -/
def previewFile (data : Bytes) (modelId : UInt32) (colorName : Bytes) (num : UInt32) : Bytes :=
  data ++ bytes "/pub/model/" ++ toString modelId ++ bytes "-" ++ colorName ++ bytes "/preview_"
    ++ toString num ++ bytes ".jpg"

/-! ## Ids -/

/-- What `parse_id` accepts as a colour. -/
structure IsColorName (name : Bytes) : Prop where
  ne_nil : name ≠ []
  byte : ∀ c ∈ name, isColorByte c = true

theorem parseId_hyphen {num colorName : Bytes} (hnum : '-'.toUInt8 ∉ num)
    (hcolor : IsColorName colorName) :
    parseId (num ++ bytes "-" ++ colorName) = .ok (fromString num, colorName) := by
  have hid : num ++ bytes "-" ++ colorName = num ++ '-'.toUInt8 :: colorName := by
    rw [List.append_assoc]
    rfl
  have hpos : find "-" (num ++ '-'.toUInt8 :: colorName) 0 = some num.length :=
    Search.find_singleton hnum colorName
  have hbytes : ¬ ∃ c ∈ colorName, isColorByte c = false := by
    rintro ⟨c, hc, hbad⟩
    rw [hcolor.byte c hc] at hbad
    cases hbad
  rw [hid, parseId, hpos]
  simp only [List.take_left, Search.drop_append_cons]
  rw [if_neg hcolor.ne_nil, if_neg hbytes]

theorem parseId_ok {id colorName : Bytes} {modelId : UInt32}
    (h : parseId id = .ok (modelId, colorName)) :
    ∃ num, id = num ++ bytes "-" ++ colorName ∧ '-'.toUInt8 ∉ num ∧ modelId = fromString num
      ∧ IsColorName colorName := by
  unfold parseId at h
  by_cases hmem : '-'.toUInt8 ∈ id
  · obtain ⟨num, rest, rfl, hnum⟩ := List.eq_append_cons_of_mem hmem
    have hpos : find "-" (num ++ '-'.toUInt8 :: rest) 0 = some num.length :=
      Search.find_singleton hnum rest
    rw [hpos] at h
    simp only [List.take_left, Search.drop_append_cons] at h
    split at h
    · cases h
    · rename_i hne
      split at h
      · cases h
      · rename_i hbytes
        cases h
        refine ⟨num, by rw [List.append_assoc]; rfl, hnum, rfl, hne, fun c hc => ?_⟩
        by_contra hbad
        exact hbytes ⟨c, hc, by simpa using hbad⟩
  · have hnone : find "-" id 0 = none := Search.find_singleton_none hmem
    rw [hnone] at h
    cases h

theorem modelRow_ok {view : List ModelView} {id : Bytes} {row : ModelView}
    (h : modelRow view id = .ok row) : parseId id = .ok (row.modelId, row.colorName) := by
  unfold modelRow at h
  obtain ⟨⟨modelId, colorName⟩, hparse, h⟩ := bind_eq_ok h
  dsimp only at h
  split at h
  · cases h
  · rename_i row' rows hquery
    cases h
    have hmem : row ∈ modelQuery view modelId colorName := by rw [hquery]; exact List.mem_cons_self ..
    have hrow := List.of_mem_filter (List.mem_of_mem_take hmem)
    simp only [decide_eq_true_eq] at hrow
    rw [hparse, hrow.1, hrow.2]

end Simurga
