import Simurga.Store

/-!
# The views in both languages

The four views of `02_specialprice.sql` over tables of any content, keys
kept or not. Two views of a kind are one join with two lists of columns
(`collectionView`, `modelView`), and a rewriting of the tables that leaves
the keys alone is one of the rows (`collectionView_rewrite`). So a view in
English is the one in Russian of the tables with the languages exchanged
where the columns are, which is where the special prices do not differ
(`mirrored_iff`).
-/

namespace Simurga

/-- The content of the tables. -/
structure Tables where
  materials : List Material
  colors : List Color
  models : List Model
  items : List ItemRow

/-- A row of `collection_view_ru` or `collection_view_en`. -/
structure CollectionRow where
  modelId : UInt32
  colorName : Bytes
  title : Bytes
  price : ℕ
  specialPrice : Option ℕ
deriving DecidableEq

/-- A row of `model_view_ru` or `model_view_en`. -/
structure ModelRow where
  modelId : UInt32
  colorName : Bytes
  colorDesc : Bytes
  modelTitle : Bytes
  numImages : ℕ
  sizes : UInt32
  materialDesc : Option Bytes
  price : ℕ
  specialPrice : Option ℕ
  desc : Bytes
deriving DecidableEq

/-- `cast(... * 100 as unsigned int)` of a price; a negative one gives 0. -/
def castUnsigned (cents : ℤ) : ℕ := cents.toNat

/-- A row of `model_color` with its model and its colour. -/
structure ArticleRow where
  item : ItemRow
  model : Model
  color : Color

namespace Tables

/-! ## The joins -/

/-- `model_color` with both inner joins. -/
def articles (t : Tables) (items : List ItemRow) : List ArticleRow :=
  (Table.innerJoin (fun (r, _) color => color.id = r.columns.colorId)
    (Table.innerJoin (fun r model => model.id = r.columns.modelId) items t.models) t.colors).map
    fun ((r, model), color) => { item := r, model := model, color := color }

/-- ``order by `model_color`.`id` desc``. -/
def byIdDesc (items : List ItemRow) : List ItemRow := items.insertionSort fun r r' => r'.id ≤ r.id

/-- A collection view with these columns. -/
def collectionView (columns : ArticleRow → CollectionRow) (t : Tables) : List CollectionRow :=
  (t.articles (byIdDesc t.items)).map columns

/-- A model view with these columns. -/
def modelView (columns : ArticleRow × Option Material → ModelRow) (t : Tables) : List ModelRow :=
  (Table.leftJoin (fun article material => article.item.columns.materialId = some material.id)
    (t.articles t.items) t.materials).map columns

/-! ## The views -/

def collectionViewRu : Tables → List CollectionRow := collectionView fun a =>
  { modelId := a.model.id
    colorName := a.color.name
    title := a.model.shortTitleRu.getD a.model.titleRu
    price := castUnsigned a.item.columns.priceRu
    specialPrice := a.item.columns.specialPriceRu.map castUnsigned }

def collectionViewEn : Tables → List CollectionRow := collectionView fun a =>
  { modelId := a.model.id
    colorName := a.color.name
    title := a.model.shortTitleEn.getD a.model.titleEn
    price := castUnsigned a.item.columns.priceEn
    specialPrice := a.item.columns.specialPriceRu.map castUnsigned }

def modelViewRu : Tables → List ModelRow := modelView fun (a, material) =>
  { modelId := a.model.id
    colorName := a.color.name
    colorDesc := a.color.descRu
    modelTitle := a.model.titleRu
    numImages := a.item.columns.numImages
    sizes := a.item.columns.sizes
    materialDesc := material.map Material.descRu
    price := castUnsigned a.item.columns.priceRu
    specialPrice := a.item.columns.specialPriceRu.map castUnsigned
    desc := a.item.columns.descRu }

def modelViewEn : Tables → List ModelRow := modelView fun (a, material) =>
  { modelId := a.model.id
    colorName := a.color.name
    colorDesc := a.color.descEn
    modelTitle := a.model.titleEn
    numImages := a.item.columns.numImages
    sizes := a.item.columns.sizes
    materialDesc := material.map Material.descEn
    price := castUnsigned a.item.columns.priceEn
    specialPrice := a.item.columns.specialPriceRu.map castUnsigned
    desc := a.item.columns.descEn }

end Tables

/-! ## Rewriting tables -/

/-- Other columns of the rows; the keys stay. -/
structure Rewriting where
  material : Material → Material
  color : Color → Color
  model : Model → Model
  item : ItemRow → ItemRow
  material_id : ∀ m, (material m).id = m.id
  color_id : ∀ c, (color c).id = c.id
  model_id : ∀ m, (model m).id = m.id
  item_id : ∀ r, (item r).id = r.id
  item_refs : ∀ r, (item r).columns.modelId = r.columns.modelId
    ∧ (item r).columns.colorId = r.columns.colorId
    ∧ (item r).columns.materialId = r.columns.materialId

namespace Rewriting

def article (w : Rewriting) (a : ArticleRow) : ArticleRow :=
  { item := w.item a.item, model := w.model a.model, color := w.color a.color }

def tables (w : Rewriting) (t : Tables) : Tables :=
  { materials := t.materials.map w.material
    colors := t.colors.map w.color
    models := t.models.map w.model
    items := t.items.map w.item }

variable (w : Rewriting) (t : Tables)

theorem articles_rewrite (items : List ItemRow) :
    (w.tables t).articles (items.map w.item) = (t.articles items).map w.article := by
  rw [Tables.articles, Tables.articles, tables, Table.innerJoin_map fun r model => ?_,
    Table.innerJoin_map fun r color => ?_, List.map_map, List.map_map]
  · rfl
  · obtain ⟨r, model⟩ := r
    simp only [Prod.map, w.color_id, (w.item_refs r).2.1]
  · rw [w.model_id, (w.item_refs r).1]

theorem byIdDesc_rewrite (items : List ItemRow) :
    Tables.byIdDesc (items.map w.item) = (Tables.byIdDesc items).map w.item := by
  rw [Tables.byIdDesc, Tables.byIdDesc]
  exact (List.map_insertionSort _ _ w.item items fun r _ r' _ => by rw [w.item_id, w.item_id]).symm

theorem collectionView_rewrite (columns : ArticleRow → CollectionRow) :
    Tables.collectionView columns (w.tables t) = Tables.collectionView (columns ∘ w.article) t := by
  rw [Tables.collectionView, Tables.collectionView, ← List.map_map, ← articles_rewrite,
    ← byIdDesc_rewrite]
  rfl

theorem modelView_rewrite (columns : ArticleRow × Option Material → ModelRow) :
    Tables.modelView columns (w.tables t)
      = Tables.modelView (fun (a, m) => columns (w.article a, m.map w.material)) t := by
  rw [Tables.modelView, Tables.modelView]
  have harticles : (w.tables t).articles (w.tables t).items = (t.articles t.items).map w.article :=
    articles_rewrite w t t.items
  rw [harticles, show (w.tables t).materials = t.materials.map w.material from rfl,
    Table.leftJoin_map fun a m => ?_, List.map_map]
  · rfl
  · rw [w.material_id]
    exact congrArg (fun id => decide (id = some m.id)) (w.item_refs a.item).2.2

end Rewriting

/-- Every column in one language exchanged with its partner in the other. -/
def exchange : Rewriting where
  material m := { m with descRu := m.descEn, descEn := m.descRu }
  color c := { c with descRu := c.descEn, descEn := c.descRu }
  model m :=
    { m with
      shortTitleRu := m.shortTitleEn, shortTitleEn := m.shortTitleRu
      titleRu := m.titleEn, titleEn := m.titleRu }
  item r :=
    { r with
      columns :=
        { r.columns with
          priceRu := r.columns.priceEn, priceEn := r.columns.priceRu
          specialPriceRu := r.columns.specialPriceEn, specialPriceEn := r.columns.specialPriceRu
          descRu := r.columns.descEn, descEn := r.columns.descRu } }
  material_id _ := rfl
  color_id _ := rfl
  model_id _ := rfl
  item_id _ := rfl
  item_refs _ := ⟨rfl, rfl, rfl⟩

/-- No column in Russian. -/
def eraseRu : Rewriting where
  material m := { m with descRu := [] }
  color c := { c with descRu := [] }
  model m := { m with shortTitleRu := none, titleRu := [] }
  item r := { r with columns := { r.columns with priceRu := 0, specialPriceRu := none, descRu := [] } }
  material_id _ := rfl
  color_id _ := rfl
  model_id _ := rfl
  item_id _ := rfl
  item_refs _ := ⟨rfl, rfl, rfl⟩

namespace Tables

/-! ## The languages -/

section Languages

variable (t : Tables)

theorem collectionView_eq_iff (columns columns' : ArticleRow → CollectionRow) :
    collectionView columns t = collectionView columns' t
      ↔ ∀ a ∈ t.articles (byIdDesc t.items), columns a = columns' a := List.map_inj_left

theorem modelView_eq_iff (columns columns' : ArticleRow × Option Material → ModelRow) :
    modelView columns t = modelView columns' t
      ↔ ∀ a ∈ Table.leftJoin (fun (a : ArticleRow) (m : Material) =>
          a.item.columns.materialId = some m.id) (t.articles t.items) t.materials,
        columns a = columns' a := List.map_inj_left

theorem mem_articles {items : List ItemRow} {a : ArticleRow} :
    a ∈ t.articles items ↔ a.item ∈ items ∧ (a.model ∈ t.models ∧ a.model.id = a.item.columns.modelId)
      ∧ a.color ∈ t.colors ∧ a.color.id = a.item.columns.colorId := by
  rw [articles, List.mem_map]
  constructor
  · rintro ⟨⟨⟨r, model⟩, color⟩, hmem, rfl⟩
    obtain ⟨hinner, hcolor, hcolorId⟩ := Table.mem_innerJoin.mp hmem
    obtain ⟨hitem, hmodel, hmodelId⟩ := Table.mem_innerJoin.mp hinner
    exact ⟨hitem, ⟨hmodel, by simpa using hmodelId⟩, hcolor, by simpa using hcolorId⟩
  · rintro ⟨hitem, ⟨hmodel, hmodelId⟩, hcolor, hcolorId⟩
    refine ⟨((a.item, a.model), a.color), Table.mem_innerJoin.mpr ⟨?_, hcolor, ?_⟩, rfl⟩
    · exact Table.mem_innerJoin.mpr ⟨hitem, hmodel, by simpa using hmodelId⟩
    · simpa using hcolorId

/-- The special price of an item is the same in both languages, as far as the
views show it. -/
def SpecialAlike (r : ItemRow) : Prop :=
  r.columns.specialPriceRu.map castUnsigned = r.columns.specialPriceEn.map castUnsigned

/-- The views in English are those in Russian of the exchanged tables. -/
def Mirrored : Prop :=
  t.collectionViewEn = (exchange.tables t).collectionViewRu
    ∧ t.modelViewEn = (exchange.tables t).modelViewRu

theorem collectionView_mirrored_iff :
    t.collectionViewEn = (exchange.tables t).collectionViewRu
      ↔ ∀ a ∈ t.articles t.items, SpecialAlike a.item := by
  rw [collectionViewEn, collectionViewRu, exchange.collectionView_rewrite, collectionView_eq_iff]
  have hsort : ∀ a, a ∈ t.articles (byIdDesc t.items) ↔ a ∈ t.articles t.items := fun a => by
    rw [mem_articles, mem_articles, byIdDesc, List.mem_insertionSort]
  simp only [hsort]
  refine forall₂_congr fun a _ => ?_
  simp [SpecialAlike, Rewriting.article, exchange]

theorem modelView_mirrored_iff :
    t.modelViewEn = (exchange.tables t).modelViewRu
      ↔ ∀ a ∈ t.articles t.items, SpecialAlike a.item := by
  rw [modelViewEn, modelViewRu, exchange.modelView_rewrite, modelView_eq_iff]
  constructor
  · intro h a ha
    obtain ⟨m, hm⟩ := Table.exists_mem_leftJoin.mpr ha
    have hrow := congrArg ModelRow.specialPrice (h (a, m) hm)
    exact hrow
  · rintro h ⟨a, m⟩ hmem
    have ha := h a (Table.exists_mem_leftJoin.mp ⟨m, hmem⟩)
    unfold SpecialAlike at ha
    have hmaterial : (m.map exchange.material).map Material.descRu = m.map Material.descEn := by
      rw [Option.map_map]
      rfl
    dsimp only
    rw [hmaterial, ha]
    rfl

/-- The views mirror each other exactly if the items in them have special
prices that do not differ. Where they do, the views in English do not see
the columns in Russian. -/
theorem mirrored_iff :
    (t.Mirrored ↔ ∀ r ∈ t.items, (∃ model ∈ t.models, model.id = r.columns.modelId) →
        (∃ color ∈ t.colors, color.id = r.columns.colorId) → SpecialAlike r)
    ∧ ∀ t' : Tables, eraseRu.tables t = eraseRu.tables t' → t.Mirrored → t'.Mirrored →
        t.collectionViewEn = t'.collectionViewEn ∧ t.modelViewEn = t'.modelViewEn := by
  constructor
  · rw [Mirrored, collectionView_mirrored_iff, modelView_mirrored_iff, and_self]
    constructor
    · rintro h r hr ⟨model, hmodel⟩ ⟨color, hcolor⟩
      exact h { item := r, model := model, color := color } (t.mem_articles.mpr ⟨hr, hmodel, hcolor⟩)
    · intro h a ha
      obtain ⟨hitem, hmodel, hcolor⟩ := t.mem_articles.mp ha
      exact h a.item hitem ⟨a.model, hmodel⟩ ⟨a.color, hcolor⟩
  · intro t' herase ht ht'
    -- in Russian, the exchanged tables show nothing of what is erased
    have hcollection : ∀ t : Tables, (exchange.tables t).collectionViewRu
        = (exchange.tables (eraseRu.tables t)).collectionViewRu := fun t => by
      rw [collectionViewRu, exchange.collectionView_rewrite, exchange.collectionView_rewrite,
        eraseRu.collectionView_rewrite]
      rfl
    have hmodel : ∀ t : Tables, (exchange.tables t).modelViewRu
        = (exchange.tables (eraseRu.tables t)).modelViewRu := fun t => by
      rw [modelViewRu, exchange.modelView_rewrite, exchange.modelView_rewrite,
        eraseRu.modelView_rewrite]
      refine (t.modelView_eq_iff _ _).mpr fun (a, m) _ => ?_
      cases m <;> rfl
    rw [ht.1, ht'.1, ht.2, ht'.2, hcollection t, hcollection t', hmodel t, hmodel t', herase]
    exact ⟨rfl, rfl⟩

end Languages

/-- One item, with a special price in Russian only. -/
def sampleTables : Tables where
  materials := []
  colors := [{ id := 1, name := bytes "red", code := bytes "ff0000", descRu := [], descEn := [] }]
  models := [{ id := 7, shortTitleRu := none, shortTitleEn := none, titleRu := bytes "Coat", titleEn := bytes "Coat" }]
  items :=
    [{ id := 1
       columns :=
        { modelId := 7, colorId := 1, numImages := 0, sizes := 8, materialId := none, priceRu := 10000,
          priceEn := 200, specialPriceRu := some 5000, specialPriceEn := none, descRu := [], descEn := [] } }]

/-- The special price in roubles stands in the English views. -/
theorem not_mirrored :
    sampleTables.collectionViewEn.map CollectionRow.specialPrice = [some 5000]
    ∧ (exchange.tables sampleTables).collectionViewRu.map CollectionRow.specialPrice = [none]
    ∧ sampleTables.modelViewEn.map ModelRow.specialPrice = [some 5000]
    ∧ (exchange.tables sampleTables).modelViewRu.map ModelRow.specialPrice = [none]
    ∧ ¬ sampleTables.Mirrored := by
  refine ⟨by decide +kernel, by decide +kernel, by decide +kernel, by decide +kernel, fun h => ?_⟩
  have hcollection := h.1
  revert hcollection
  decide +kernel

end Tables

/-! ## The server -/

/-- The row in the result buffers of `LookbookHttpObject`: prices in 32 bits. -/
def CollectionRow.fetch (row : CollectionRow) : CollectionView :=
  { modelId := row.modelId
    colorName := row.colorName
    title := row.title
    price := UInt32.ofNat row.price
    specialPrice := row.specialPrice.map UInt32.ofNat }

/-- The same for the model page. -/
def ModelRow.fetch (row : ModelRow) : ModelView :=
  { modelId := row.modelId
    colorName := row.colorName
    colorDesc := row.colorDesc
    modelTitle := row.modelTitle
    numImages := UInt32.ofNat row.numImages
    sizes := row.sizes
    materialDesc := row.materialDesc
    price := UInt32.ofNat row.price
    specialPrice := row.specialPrice.map UInt32.ofNat
    desc := row.desc }

namespace CollectionDb

variable {collate : Bytes → Bytes} (db : CollectionDb collate)

def tables : Tables :=
  { materials := db.materials, colors := db.colors, models := db.models, items := db.items.rows }

/-- The partners of a row, where keys are kept. -/
def articleRow (r : ItemRow) : Option ArticleRow := do
  let model ← db.models.find? fun m => m.id = r.columns.modelId
  let color ← db.colors.find? fun c => c.id = r.columns.colorId
  pure { item := r, model := model, color := color }

theorem articles_tables (items : List ItemRow) :
    db.tables.articles items = items.filterMap db.articleRow := by
  have hmodel := Table.filter_key db.modelIds
  have hcolor := Table.filter_key db.colorIds
  rw [Tables.articles, Table.innerJoin, Table.innerJoin, List.flatMap_assoc, List.map_flatMap,
    List.filterMap_eq_flatMap_toList]
  congr 1
  funext r
  rw [List.flatMap_map, articleRow]
  dsimp only [tables]
  rw [hmodel, hcolor]
  cases db.models.find? fun m => m.id = r.columns.modelId with
  | none => rfl
  | some model => cases db.colors.find? fun c => c.id = r.columns.colorId <;> rfl

/-- The rows that the server fetches from the views are those of the model of
the pages. -/
theorem collectionViewRu_tables :
    db.collectionViewRu = db.tables.collectionViewRu.map CollectionRow.fetch := by
  rw [collectionViewRu, Tables.collectionViewRu, Tables.collectionView, articles_tables,
    List.map_filterMap, List.map_filterMap]
  change _ = (db.items.rows.insertionSort fun r r' => r'.id ≤ r.id).filterMap _
  congr 1
  funext r
  rw [collectionEntry, articleRow, colorById]
  cases db.models.find? fun m => m.id = r.columns.modelId with
  | none => rfl
  | some model =>
      cases db.colors.find? fun c => c.id = r.columns.colorId with
      | none => rfl
      | some color =>
          cases hspecial : r.columns.specialPriceRu <;>
            simp [hspecial, CollectionRow.fetch, viewPrice, castUnsigned]

theorem modelViewRu_tables : db.modelViewRu = db.tables.modelViewRu.map ModelRow.fetch := by
  have hmaterial : ∀ a : ArticleRow,
      db.tables.materials.filter (fun m => a.item.columns.materialId = some m.id)
        = (a.item.columns.materialId.bind fun id => db.materials.find? fun m => m.id = id).toList := by
    intro a
    cases a.item.columns.materialId with
    | none => simp
    | some id =>
        rw [Option.bind_some, ← Table.filter_key db.materialIds]
        exact List.filter_congr fun m _ => by simp [eq_comm]
  rw [modelViewRu, Tables.modelViewRu, Tables.modelView, Table.leftJoin_eq_map hmaterial,
    articles_tables, List.map_map, List.map_map, List.map_filterMap]
  change _ = db.items.rows.filterMap _
  congr 1
  funext r
  rw [modelEntry, articleRow, colorById]
  cases db.models.find? fun m => m.id = r.columns.modelId with
  | none => rfl
  | some model =>
      cases db.colors.find? fun c => c.id = r.columns.colorId with
      | none => rfl
      | some color =>
          cases hspecial : r.columns.specialPriceRu <;>
            simp [hspecial, ModelRow.fetch, viewPrice, castUnsigned]

end CollectionDb

end Simurga
