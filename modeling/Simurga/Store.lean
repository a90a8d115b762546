import Simurga.Article
import Simurga.ColorName
import Simurga.ModelColor
import Simurga.Lib.Table
import Mathlib.Data.List.Sort

/-!
# The collection database

The tables of `01_collection.sql` and `02_specialprice.sql` with their
keys as fields, so that a statement that breaks a key has no result, the
objects of `Simurga.pm` that write them, and the views that the pages
read. Names are compared by the collation of the columns, which is a
parameter: equal names have equal images under `collate`. A method that
dies is `none`.
-/

namespace Simurga

/-! ## Tables -/

/-- A row of `material`. -/
structure Material where
  id : UInt32
  name : Bytes
  descRu : Bytes
  descEn : Bytes

/-- A row of `color`. -/
structure Color where
  id : UInt32
  name : Bytes
  code : Bytes
  descRu : Bytes
  descEn : Bytes

/-- A row of `model`. -/
structure Model where
  id : UInt32
  shortTitleRu : Option Bytes
  shortTitleEn : Option Bytes
  titleRu : Bytes
  titleEn : Bytes
deriving DecidableEq

/-- The columns of `model_color` besides its key; prices are in cents, and
nothing keeps a negative one out. -/
structure ItemColumns where
  modelId : UInt32
  colorId : UInt32
  numImages : ℕ
  sizes : UInt32
  materialId : Option UInt32
  priceRu : ℤ
  priceEn : ℤ
  specialPriceRu : Option ℤ
  specialPriceEn : Option ℤ
  descRu : Bytes
  descEn : Bytes

abbrev ItemRow := ModelColor ItemColumns

namespace ModelColorTable

variable {Columns : Type}

/-- The columns of all rows. -/
def contents (t : ModelColorTable Columns) : List Columns := t.rows.map ModelColor.columns

/-- `insert` with `next_id`. -/
def insert (t : ModelColorTable Columns) (columns : Columns) : ModelColorTable Columns where
  rows := t.rows ++ [{ id := t.nextId, columns := columns }]
  primaryKey := Table.nodup_concat t.primaryKey t.nextId_not_mem

/-- `update ... where id = ?` of all other columns. -/
def update (t : ModelColorTable Columns) (id : ℕ) (columns : Columns) : ModelColorTable Columns where
  rows := t.rows.map fun r => if r.id = id then { r with columns := columns } else r
  primaryKey := by
    rw [Table.map_update fun r _ => by split <;> rfl]
    exact t.primaryKey

@[simp] theorem contents_insert (t : ModelColorTable Columns) (columns : Columns) :
    (t.insert columns).contents = t.contents ++ [columns] := by
  simp [contents, insert]

theorem contents_execute {t t' : ModelColorTable Columns} {setId whereId : ℕ}
    (h : t.execute setId whereId = some t') : t'.contents = t.contents := by
  unfold execute at h
  split_ifs at h
  · cases h
    rfl
  · cases h
    refine Table.map_update fun r _ => ?_
    unfold setRow
    split <;> rfl
  · cases h
    rfl

theorem contents_shift {next : ℕ → ℕ} (count : ℕ) : ∀ {id : ℕ} {t t' : ModelColorTable Columns},
    shift next count id t = some t' → t'.contents = t.contents := by
  induction count with
  | zero =>
      intro id t t' h
      cases h
      rfl
  | succ count ih =>
      intro id t t' h
      obtain ⟨t₁, h₁, h₂⟩ := Option.bind_eq_some_iff.mp h
      rw [ih h₂, contents_execute h₁]

/-- `move_to` changes ids only. -/
theorem contents_moveTo {t t' : ModelColorTable Columns} {oldId newId id : ℕ}
    (h : t.moveTo oldId newId = some (t', id)) : t'.contents = t.contents := by
  unfold moveTo at h
  dsimp only at h
  split at h
  · cases h
    rfl
  · obtain ⟨t₁, h₁, h⟩ := Option.bind_eq_some_iff.mp h
    obtain ⟨t₂, h₂, h⟩ := Option.bind_eq_some_iff.mp h
    obtain ⟨t₃, h₃, h⟩ := Option.bind_eq_some_iff.mp h
    cases h
    have hfree : t₂.contents = t₁.contents := by
      unfold makeFree at h₂
      split at h₂
      · exact contents_shift _ h₂
      · exact contents_shift _ h₂
    rw [contents_execute h₃, hfree, contents_execute h₁]

end ModelColorTable

/-! ## Keys -/

/-- The tables with their keys. -/
@[ext]
structure CollectionDb (collate : Bytes → Bytes) where
  materials : List Material
  colors : List Color
  models : List Model
  items : ModelColorTable ItemColumns
  materialIds : (materials.map Material.id).Nodup
  materialNames : (materials.map fun m => collate m.name).Nodup
  colorIds : (colors.map Color.id).Nodup
  colorNames : (colors.map fun c => collate c.name).Nodup
  modelIds : (models.map Model.id).Nodup
  modelFk : ∀ columns ∈ items.contents, columns.modelId ∈ models.map Model.id
  colorFk : ∀ columns ∈ items.contents, columns.colorId ∈ colors.map Color.id
  materialFk : ∀ columns ∈ items.contents, ∀ id, columns.materialId = some id →
    id ∈ materials.map Material.id

namespace CollectionDb

variable {collate : Bytes → Bytes}

/-- The schema without rows. -/
def empty : CollectionDb collate where
  materials := []
  colors := []
  models := []
  items := { rows := [], primaryKey := List.nodup_nil }
  materialIds := List.nodup_nil
  materialNames := List.nodup_nil
  colorIds := List.nodup_nil
  colorNames := List.nodup_nil
  modelIds := List.nodup_nil
  modelFk := by simp [ModelColorTable.contents]
  colorFk := by simp [ModelColorTable.contents]
  materialFk := by simp [ModelColorTable.contents]

/-- ``insert into `material` ``; the id is the one that the database gives. -/
def insertMaterial (db : CollectionDb collate) (row : Material) : Option (CollectionDb collate) :=
  if h : row.id ∉ db.materials.map Material.id
      ∧ collate row.name ∉ db.materials.map fun m => collate m.name then
    some { db with
      materials := db.materials ++ [row]
      materialIds := Table.nodup_concat db.materialIds h.1
      materialNames := Table.nodup_concat db.materialNames h.2
      materialFk := fun columns hc id hid => Table.mem_concat (db.materialFk columns hc id hid) row }
  else none

/-- ``insert into `color` ``. -/
def insertColor (db : CollectionDb collate) (row : Color) : Option (CollectionDb collate) :=
  if h : row.id ∉ db.colors.map Color.id
      ∧ collate row.name ∉ db.colors.map fun c => collate c.name then
    some { db with
      colors := db.colors ++ [row]
      colorIds := Table.nodup_concat db.colorIds h.1
      colorNames := Table.nodup_concat db.colorNames h.2
      colorFk := fun columns hc => Table.mem_concat (db.colorFk columns hc) row }
  else none

/-- The row of `model` with one number is replaced. -/
def setModel (row m : Model) : Model := if m.id = row.id then row else m

theorem map_id_setModel (models : List Model) (row : Model) :
    (models.map (setModel row)).map Model.id = models.map Model.id := by
  refine Table.map_update fun m _ => ?_
  unfold setModel
  split
  · rename_i h
    exact h.symm
  · rfl

/-- The statements of `Model::save`: an update if the number is found, an
insert if it is not. -/
def saveModel (db : CollectionDb collate) (row : Model) : CollectionDb collate :=
  if h : row.id ∈ db.models.map Model.id then
    { db with
      models := db.models.map (setModel row)
      modelIds := by rw [map_id_setModel]; exact db.modelIds
      modelFk := fun columns hc => by rw [map_id_setModel]; exact db.modelFk columns hc }
  else
    { db with
      models := db.models ++ [row]
      modelIds := Table.nodup_concat db.modelIds h
      modelFk := fun columns hc => Table.mem_concat (db.modelFk columns hc) row }

/-- The foreign keys of a row of `model_color`. -/
def References (db : CollectionDb collate) (columns : ItemColumns) : Prop :=
  columns.modelId ∈ db.models.map Model.id ∧ columns.colorId ∈ db.colors.map Color.id
    ∧ ∀ id ∈ columns.materialId, id ∈ db.materials.map Material.id

instance (db : CollectionDb collate) (columns : ItemColumns) : Decidable (db.References columns) :=
  -- Not the instance that goes through all numbers.
  have := Option.decidableForallMem (p := fun id => id ∈ db.materials.map Material.id)
    columns.materialId
  inferInstanceAs (Decidable (_ ∧ _ ∧ _))

/-- Another content of `model_color` whose rows refer to rows that are there. -/
def setItems (db : CollectionDb collate) (items : ModelColorTable ItemColumns)
    (h : ∀ columns ∈ items.contents, db.References columns) : CollectionDb collate :=
  { db with
    items := items
    modelFk := fun columns hc => (h columns hc).1
    colorFk := fun columns hc => (h columns hc).2.1
    materialFk := fun columns hc id hid => (h columns hc).2.2 id hid }

theorem references_of_mem (db : CollectionDb collate) {columns : ItemColumns}
    (h : columns ∈ db.items.contents) : db.References columns :=
  ⟨db.modelFk columns h, db.colorFk columns h, db.materialFk columns h⟩

/-- ``insert into `model_color` ``. -/
def insertItem (db : CollectionDb collate) (columns : ItemColumns) : Option (CollectionDb collate) :=
  if h : db.References columns then
    some (db.setItems (db.items.insert columns) fun c hc => by
      rw [ModelColorTable.contents_insert, List.mem_append, List.mem_singleton] at hc
      rcases hc with hc | rfl
      · exact db.references_of_mem hc
      · exact h)
  else none

/-- ``update `model_color` ... where `id` = ?``. -/
def updateItem (db : CollectionDb collate) (id : ℕ) (columns : ItemColumns) :
    Option (CollectionDb collate) :=
  if h : db.References columns then
    some (db.setItems (db.items.update id columns) fun c hc => by
      obtain ⟨r', hr', rfl⟩ := List.mem_map.mp hc
      obtain ⟨r, hr, rfl⟩ := List.mem_map.mp hr'
      split
      · exact h
      · exact db.references_of_mem (List.mem_map_of_mem hr))
  else none

/-- `move_to`. -/
def moveItem (db : CollectionDb collate) (oldId newId : ℕ) : Option (CollectionDb collate) :=
  match h : db.items.moveTo oldId newId with
  | some (items, _) =>
      some (db.setItems items fun c hc => by
        rw [ModelColorTable.contents_moveTo h] at hc
        exact db.references_of_mem hc)
  | none => none

end CollectionDb

/-! ## Objects -/

/-- `Simurga::Model::new`. -/
def Model.new (data : Model) : Option Model :=
  let orEmpty (title : Option Bytes) := if isTrue title then title else some []
  let titleEn := if isTrue (some data.titleEn) then data.titleEn else data.titleRu
  let titleRu := if isTrue (some data.titleRu) then data.titleRu else titleEn
  if isTrue (some titleRu) then
    some { data with
      shortTitleRu := orEmpty data.shortTitleRu
      shortTitleEn := orEmpty data.shortTitleEn
      titleRu := titleRu
      titleEn := titleEn }
  else none

/-- `Simurga::ModelColor::new`, on data whose sizes are a number. The model
is the text that was entered, and a true one may be the number 0. -/
def ItemColumns.new (data : ItemColumns) (modelId : Bytes) : Option ItemColumns :=
  if isTrue (some modelId) ∧ isTrue (some (toString data.colorId)) then
    let descEn := if isTrue (some data.descEn) then data.descEn else data.descRu
    let descRu := if isTrue (some data.descRu) then data.descRu else descEn
    some { data with descRu := descRu, descEn := descEn }
  else none

/-- `new` on a row of the table. -/
def ItemColumns.fetched (row : ItemColumns) : Option ItemColumns := row.new (toString row.modelId)

/-- A Perl number for a price column: whether it is false, and the cents
that the column takes for it; none if the statement fails. -/
structure PriceNumber where
  isFalse : Bool
  cents : Option ℤ

namespace CollectionDb

variable {collate : Bytes → Bytes}

/-- `Simurga::Color::by_name`. -/
def colorByName (db : CollectionDb collate) (name : Bytes) : Option Color :=
  db.colors.find? fun c => collate c.name = collate name

/-- `Simurga::Color::by_id`. -/
def colorById (db : CollectionDb collate) (id : UInt32) : Option Color :=
  db.colors.find? fun c => c.id = id

/-- `Simurga::ModelColor::by_id`. -/
def itemById (db : CollectionDb collate) (id : ℕ) : Option ItemRow := do
  let row ← db.items.rows.find? fun r => r.id = id
  let columns ← row.columns.fetched
  pure { row with columns := columns }

/-- `Simurga::ModelColor::by_model_and_color`: `limit 1` of the rows in the
order of the table. -/
def byModelAndColor (db : CollectionDb collate) (modelId : UInt32) (colorName : Bytes) :
    Option ItemRow := do
  let color ← db.colorByName colorName
  let row ← db.items.rows.find? fun r => r.columns.modelId = modelId ∧ r.columns.colorId = color.id
  let columns ← row.columns.fetched
  pure { row with columns := columns }

/-- `Simurga::ModelColor::by_model`. -/
def byModel (db : CollectionDb collate) (modelId : UInt32) : Option (List ItemRow) :=
  (db.items.rows.filter fun r => r.columns.modelId = modelId).mapM fun row => do
    let columns ← row.columns.fetched
    pure { row with columns := columns }

/-- `Simurga::ModelColor::create` with the text of a model; `idColumn` is
the number that the column takes for a text, if it does. -/
def createItem (idColumn : Bytes → Option UInt32) (db : CollectionDb collate) (modelId : Bytes)
    (data : ItemColumns) : Option (CollectionDb collate) := do
  let number ← idColumn modelId
  let columns ← { data with modelId := number }.new modelId
  db.insertItem columns

/-- `Simurga::ModelColor::save` of an object that has an id. -/
def saveItem (db : CollectionDb collate) (item : ItemRow) : Option (CollectionDb collate) :=
  db.updateItem item.id item.columns

/-- `Simurga::Model::create`. -/
def createModel (db : CollectionDb collate) (data : Model) : Option (CollectionDb collate) :=
  data.new.map db.saveModel

/-! ## Commands -/

/-- `Simurga::Color::_check_code`. -/
def checkCode (u : UnicodeClasses) (code : List Char) : Bool :=
  let body := if code.getLast? = some '\n' then code.dropLast else code
  body.length = 6 && body.all fun c => u.isDigit c || ('a' ≤ c && c ≤ 'f') || ('A' ≤ c && c ≤ 'F')

/-- `Simurga::Color::create` in `color`; the id is the one that the database gives. -/
def createColor (u : UnicodeClasses) (db : CollectionDb collate) (id : UInt32)
    (name code : List Char) (descRu : Bytes) : Option (CollectionDb collate) :=
  if isTrue (some (utf8 name)) ∧ isTrue (some (utf8 code)) ∧ u.checkName name ∧ checkCode u code then
    db.insertColor
      { id := id, name := utf8 name, code := utf8 code, descRu := descRu, descEn := [] }
  else none

/-- `Simurga::Material::create` in `material`. -/
def createMaterial (db : CollectionDb collate) (id : UInt32) (name descRu : Bytes) :
    Option (CollectionDb collate) :=
  if isTrue (some name) then
    db.insertMaterial { id := id, name := name, descRu := descRu, descEn := [] }
  else none

/-- The object after `special_price_ru($price)`, or after
`remove_special_price_ru` for no price; `_get_save` ignores a false one. -/
def setSpecialPriceRu (item : ItemRow) : Option PriceNumber → Option ItemRow
  | none => some { item with columns := { item.columns with specialPriceRu := none } }
  | some price =>
      if price.isFalse then some item
      else price.cents.map fun cents =>
        { item with columns := { item.columns with specialPriceRu := some cents } }

/-- The item in `sprice` and in a line of `scsv`. -/
def specialPrice (db : CollectionDb collate) (modelId : UInt32) (colorName : Bytes)
    (price : Option PriceNumber) : Option (CollectionDb collate) := do
  let item ← db.byModelAndColor modelId colorName
  let item ← setSpecialPriceRu item price
  db.saveItem item

/-- The object after `desc_ru($desc)`. -/
def setDescRu (item : ItemRow) (desc : Bytes) : ItemRow :=
  if isTrue (some desc) then { item with columns := { item.columns with descRu := desc } } else item

/-- The items in `desc`. -/
def describedItems (db : CollectionDb collate) (modelId : UInt32) :
    Option Bytes → Option (List ItemRow)
  | some colorName => (db.byModelAndColor modelId colorName).map fun item => [item]
  | none => db.byModel modelId

/-- `desc`. -/
def describe (db : CollectionDb collate) (modelId : UInt32) (colorName : Option Bytes)
    (desc : Bytes) : Option (CollectionDb collate) := do
  let items ← db.describedItems modelId colorName
  items.foldlM (fun db item => db.saveItem (setDescRu item desc)) db

/-- The item in `move`. -/
def move (db : CollectionDb collate) (oldId newId : ℕ) : Option (CollectionDb collate) := do
  let item ← db.itemById oldId
  db.moveItem item.id newId

/-! ## Views -/

/-- The price as `cast(... * 100 as unsigned int)`, which makes 0 of a
negative one, in the 32 bits of the server. -/
def viewPrice (cents : ℤ) : UInt32 := UInt32.ofNat cents.toNat

/-- The row of `collection_view_ru` for a row of `model_color`. -/
def collectionEntry (db : CollectionDb collate) (r : ItemRow) : Option CollectionView := do
  let model ← db.models.find? fun m => m.id = r.columns.modelId
  let color ← db.colorById r.columns.colorId
  pure {
    modelId := model.id
    colorName := color.name
    title := model.shortTitleRu.getD model.titleRu
    price := viewPrice r.columns.priceRu
    specialPrice := r.columns.specialPriceRu.map viewPrice }

/-- `collection_view_ru`; the joined tables have at most one partner for a
row, as their keys are primary. -/
def collectionViewRu (db : CollectionDb collate) : List CollectionView :=
  (db.items.rows.insertionSort fun r r' => r'.id ≤ r.id).filterMap db.collectionEntry

/-- The row of `model_view_ru` for a row of `model_color`. -/
def modelEntry (db : CollectionDb collate) (r : ItemRow) : Option ModelView := do
  let model ← db.models.find? fun m => m.id = r.columns.modelId
  let color ← db.colorById r.columns.colorId
  let material := r.columns.materialId.bind fun id => db.materials.find? fun m => m.id = id
  pure {
    modelId := model.id
    colorName := color.name
    colorDesc := color.descRu
    modelTitle := model.titleRu
    numImages := UInt32.ofNat r.columns.numImages
    sizes := r.columns.sizes
    materialDesc := material.map Material.descRu
    price := viewPrice r.columns.priceRu
    specialPrice := r.columns.specialPriceRu.map viewPrice
    desc := r.columns.descRu }

/-- `model_view_ru`. -/
def modelViewRu (db : CollectionDb collate) : List ModelView := db.items.rows.filterMap db.modelEntry

/-- The query of the model page on `model_view_ru`, with the comparison of the column. -/
def modelPage (db : CollectionDb collate) (modelId : UInt32) (colorName : Bytes) : List ModelView :=
  (db.modelViewRu.filter fun row =>
    row.modelId = modelId ∧ collate row.colorName = collate colorName).take 1

/-- Where only equal names compare as equal, it is the query of the handler. -/
theorem modelPage_id (db : CollectionDb id) (modelId : UInt32) (colorName : Bytes) :
    db.modelPage modelId colorName = modelQuery db.modelViewRu modelId colorName := rfl

end CollectionDb

end Simurga
