import Simurga.Store
import Simurga.Images
import Simurga.Lib.Machine

/-!
# One row per article

The admin scripts as a machine over the committed database, the database
of the open transaction and the image directories. A step is one call of
`Simurga.pm`; a script is some of them and a commit, or dies on the way
and is rolled back. Neither the schema nor a script keeps `model_color`
from having two rows with one model and one colour, but the model page,
the commands and the names of the directories know no other key
(`modelPage_entry`, `directory_inj`). Runs in which no created item
repeats a pair keep the pairs apart (`articles_unique`).
-/

namespace Simurga

/-! ## Pairs -/

/-- The model and the colour of an item. -/
def ItemColumns.pair (columns : ItemColumns) : UInt32 × UInt32 := (columns.modelId, columns.colorId)

theorem ItemColumns.pair_new {data columns : ItemColumns} {modelId : Bytes}
    (h : data.new modelId = some columns) : columns.pair = data.pair := by
  unfold ItemColumns.new at h
  split at h
  · cases h
    rfl
  · cases h

theorem ItemColumns.new_keeps {data columns : ItemColumns} {modelId : Bytes}
    (h : data.new modelId = some columns) :
    columns.materialId = data.materialId ∧ columns.specialPriceRu = data.specialPriceRu := by
  unfold ItemColumns.new at h
  split at h
  · cases h
    exact ⟨rfl, rfl⟩
  · cases h

/-- The digits of a number are false for 0 only. -/
theorem isTrue_toString {n : UInt32} : isTrue (some (toString n)) = true ↔ n ≠ 0 := by
  have hne : toString n ≠ [] := Decimal.digits_ne_nil _
  have hzero : toString n = bytes "0" ↔ n = 0 := by
    constructor
    · intro h
      rw [← fromString_toString n, h]
      rfl
    · rintro rfl
      rfl
  simp [isTrue, hne, hzero]

theorem ItemColumns.isSome_new_iff {data : ItemColumns} {modelId : Bytes} :
    (data.new modelId).isSome ↔ isTrue (some modelId) ∧ data.colorId ≠ 0 := by
  rw [← isTrue_toString]
  unfold ItemColumns.new
  split
  · rename_i htrue
    exact iff_of_true rfl htrue
  · rename_i hfalse
    exact iff_of_false nofun hfalse

theorem ItemColumns.isSome_fetched_iff {row : ItemColumns} :
    row.fetched.isSome ↔ row.modelId ≠ 0 ∧ row.colorId ≠ 0 := by
  rw [fetched, isSome_new_iff, isTrue_toString]

/-- A number and a name are read back from the name of a directory. -/
theorem modelId_inj {m m' : UInt32} {c c' : Bytes} (h : modelId m c = modelId m' c') :
    m = m' ∧ c = c' := by
  have hsplit : ∀ (m : UInt32) (c : Bytes),
      modelId m c = toString m ++ '-'.toUInt8 :: c := fun m c => List.append_assoc ..
  rw [hsplit, hsplit] at h
  have hlen := Search.find_singleton (hyphen_not_mem_toString m) c
  rw [h, Search.find_singleton (hyphen_not_mem_toString m')] at hlen
  obtain ⟨hm, hc⟩ := List.append_inj h (Option.some.inj hlen).symm
  refine ⟨?_, (List.cons.inj hc).2⟩
  rw [← fromString_toString m, hm, fromString_toString]

namespace CollectionDb

variable {collate : Bytes → Bytes} {db db' : CollectionDb collate}

def pairs (db : CollectionDb collate) : List (UInt32 × UInt32) :=
  db.items.contents.map ItemColumns.pair

/-- No two rows have one model and one colour. -/
def OneRowPerArticle (db : CollectionDb collate) : Prop := db.pairs.Nodup

theorem pairs_insertItem {columns : ItemColumns} (h : db.insertItem columns = some db') :
    db'.pairs = db.pairs ++ [columns.pair] := by
  unfold insertItem at h
  split at h
  · cases h
    rw [pairs, setItems, ModelColorTable.contents_insert, List.map_append, List.map_singleton]
    rfl
  · cases h

theorem pairs_createItem {idColumn : Bytes → Option UInt32} {modelId : Bytes} {number : UInt32}
    {data : ItemColumns} (hnumber : idColumn modelId = some number)
    (h : db.createItem idColumn modelId data = some db') :
    db'.pairs = db.pairs ++ [(number, data.colorId)] := by
  obtain ⟨number', hnumber', h⟩ := Option.bind_eq_some_iff.mp h
  obtain ⟨columns, hnew, hinsert⟩ := Option.bind_eq_some_iff.mp h
  rw [hnumber] at hnumber'
  cases hnumber'
  rw [pairs_insertItem hinsert, ItemColumns.pair_new hnew]
  rfl

theorem isSome_insertItem_iff {columns : ItemColumns} :
    (db.insertItem columns).isSome ↔ db.References columns := by
  unfold insertItem
  split <;> simp [*]

theorem references_new {data columns : ItemColumns} {modelId : Bytes}
    (h : data.new modelId = some columns) : db.References columns ↔ db.References data := by
  obtain ⟨hmodel, hcolor⟩ := Prod.mk.inj (ItemColumns.pair_new h)
  unfold References
  rw [hmodel, hcolor, (ItemColumns.new_keeps h).1]

/-- An item is created if its texts are true and its keys refer to rows. -/
theorem isSome_createItem_iff {idColumn : Bytes → Option UInt32} {modelId : Bytes}
    {data : ItemColumns} :
    (db.createItem idColumn modelId data).isSome ↔ ∃ number, idColumn modelId = some number
      ∧ (isTrue (some modelId) ∧ data.colorId ≠ 0)
      ∧ db.References { data with modelId := number } := by
  unfold createItem
  cases idColumn modelId with
  | none => simp
  | some number =>
      have hnew : ({ data with modelId := number }.new modelId).isSome
          ↔ isTrue (some modelId) ∧ data.colorId ≠ 0 := ItemColumns.isSome_new_iff
      simp only [Option.some.injEq, exists_eq_left', Option.bind_eq_bind, Option.bind_some]
      rw [← hnew]
      cases hcolumns : { data with modelId := number }.new modelId with
      | none => simp
      | some columns =>
          rw [Option.bind_some, isSome_insertItem_iff, references_new hcolumns]
          simp

theorem oneRow_createItem_iff {idColumn : Bytes → Option UInt32} {modelId : Bytes}
    {number : UInt32} {data : ItemColumns} (hnumber : idColumn modelId = some number)
    (h : db.createItem idColumn modelId data = some db') :
    db'.OneRowPerArticle ↔ db.OneRowPerArticle ∧ (number, data.colorId) ∉ db.pairs := by
  rw [OneRowPerArticle, pairs_createItem hnumber h, List.nodup_append_comm, List.singleton_append,
    List.nodup_cons, OneRowPerArticle, and_comm]

/-- The pairs together with the ids. -/
def keys (db : CollectionDb collate) : List (ℕ × UInt32 × UInt32) :=
  db.items.rows.map fun r => (r.id, r.columns.pair)

theorem pairs_eq_of_keys (h : db'.keys = db.keys) : db'.pairs = db.pairs := by
  have hpairs : ∀ db : CollectionDb collate, db.pairs = db.keys.map Prod.snd := fun db => by
    rw [pairs, keys, ModelColorTable.contents, List.map_map, List.map_map]
    rfl
  rw [hpairs, h, hpairs]

/-- A change of a row that keeps its model and its colour. -/
theorem keys_updateItem {id : ℕ} {columns : ItemColumns}
    (hkeep : ∀ r ∈ db.items.rows, r.id = id → r.columns.pair = columns.pair)
    (h : db.updateItem id columns = some db') : db'.keys = db.keys := by
  unfold updateItem at h
  split at h
  · cases h
    refine Table.map_update fun r hr => ?_
    split
    · rename_i hid
      rw [hkeep r hr hid]
    · rfl
  · cases h

theorem pairs_moveItem {oldId newId : ℕ} (h : db.moveItem oldId newId = some db') :
    db'.pairs = db.pairs := by
  unfold moveItem at h
  split at h
  · rename_i items id hmove
    cases h
    rw [pairs, setItems, ModelColorTable.contents_moveTo hmove, pairs]
  · cases h

/-- The object of a row, as the methods that look for rows return it. -/
def IsObject (db : CollectionDb collate) (item : ItemRow) : Prop :=
  ∃ r ∈ db.items.rows, r.id = item.id ∧ r.columns.pair = item.columns.pair

theorem IsObject.pair_eq {item : ItemRow} (h : db.IsObject item) :
    ∀ r ∈ db.items.rows, r.id = item.id → r.columns.pair = item.columns.pair := by
  obtain ⟨r₀, hr₀, hid₀, hpair⟩ := h
  intro r hr hid
  have hrow : r = r₀ := List.inj_on_of_nodup_map db.items.primaryKey hr hr₀ (hid.trans hid₀.symm)
  rw [hrow, hpair]

theorem isObject_of_find {p : ItemRow → Bool} {item row : ItemRow} {columns : ItemColumns}
    (hfind : db.items.rows.find? p = some row) (hnew : row.columns.fetched = some columns)
    (hitem : item = { row with columns := columns }) : db.IsObject item := by
  subst hitem
  exact ⟨row, List.mem_of_find?_eq_some hfind, rfl, (ItemColumns.pair_new hnew).symm⟩

theorem isObject_itemById {id : ℕ} {item : ItemRow} (h : db.itemById id = some item) :
    db.IsObject item ∧ item.id = id := by
  obtain ⟨row, hfind, h⟩ := Option.bind_eq_some_iff.mp h
  obtain ⟨columns, hnew, h⟩ := Option.bind_eq_some_iff.mp h
  cases h
  exact ⟨isObject_of_find hfind hnew rfl, (Table.mem_of_find? hfind).2⟩

theorem isObject_byModelAndColor {m : UInt32} {name : Bytes} {item : ItemRow}
    (h : db.byModelAndColor m name = some item) : db.IsObject item := by
  obtain ⟨color, -, h⟩ := Option.bind_eq_some_iff.mp h
  obtain ⟨row, hfind, h⟩ := Option.bind_eq_some_iff.mp h
  obtain ⟨columns, hnew, h⟩ := Option.bind_eq_some_iff.mp h
  cases h
  exact isObject_of_find hfind hnew rfl

/-- Objects of rows stay such while rows keep their ids and their pairs. -/
theorem IsObject.congr {item : ItemRow} (h : db.IsObject item) (hkeys : db'.keys = db.keys) :
    db'.IsObject item := by
  obtain ⟨r, hr, hid, hpair⟩ := h
  have hmem : (r.id, r.columns.pair) ∈ db'.keys := by
    rw [hkeys]
    exact List.mem_map_of_mem hr
  obtain ⟨r', hr', heq⟩ := List.mem_map.mp hmem
  obtain ⟨hid', hpair'⟩ := Prod.mk.inj heq
  exact ⟨r', hr', hid'.trans hid, hpair'.trans hpair⟩

theorem isObject_of_mapM : ∀ {rows items : List ItemRow}, rows ⊆ db.items.rows →
    (rows.mapM fun row => do
      let columns ← row.columns.fetched
      pure ({ row with columns := columns } : ItemRow)) = some items →
    ∀ item ∈ items, db.IsObject item
  | [], items, _, h => by
      cases h
      simp
  | row :: rows, items, hsub, h => by
      rw [List.mapM_cons] at h
      obtain ⟨item, hitem, h⟩ := Option.bind_eq_some_iff.mp h
      obtain ⟨items', hitems', h⟩ := Option.bind_eq_some_iff.mp h
      obtain ⟨columns, hnew, hitem⟩ := Option.bind_eq_some_iff.mp hitem
      cases hitem
      cases h
      obtain ⟨hrow, hrows⟩ := List.cons_subset.mp hsub
      intro item hmem
      rcases List.mem_cons.mp hmem with rfl | hmem
      · exact ⟨row, hrow, rfl, (ItemColumns.pair_new hnew).symm⟩
      · exact isObject_of_mapM hrows hitems' item hmem

/-- Saving an object whose model and colour have not been set. -/
theorem keys_saveItem {item item' : ItemRow} (hitem : db.IsObject item) (hid : item'.id = item.id)
    (hpair : item'.columns.pair = item.columns.pair) (h : db.saveItem item' = some db') :
    db'.keys = db.keys := by
  refine keys_updateItem (fun r hr hr' => ?_) h
  rw [hpair]
  exact hitem.pair_eq r hr (hr'.trans hid)

theorem setSpecialPriceRu_keys {item item' : ItemRow} {price : Option PriceNumber}
    (h : setSpecialPriceRu item price = some item') :
    item'.id = item.id ∧ item'.columns.pair = item.columns.pair := by
  unfold setSpecialPriceRu at h
  split at h
  · cases h
    exact ⟨rfl, rfl⟩
  · split at h
    · cases h
      exact ⟨rfl, rfl⟩
    · obtain ⟨cents, -, rfl⟩ := Option.map_eq_some_iff.mp h
      exact ⟨rfl, rfl⟩

theorem setDescRu_keys (item : ItemRow) (desc : Bytes) :
    (setDescRu item desc).id = item.id
      ∧ (setDescRu item desc).columns.pair = item.columns.pair := by
  unfold setDescRu
  split <;> exact ⟨rfl, rfl⟩

theorem keys_specialPrice {m : UInt32} {name : Bytes} {price : Option PriceNumber}
    (h : db.specialPrice m name price = some db') : db'.keys = db.keys := by
  obtain ⟨item, hitem, h⟩ := Option.bind_eq_some_iff.mp h
  obtain ⟨item', hset, hsave⟩ := Option.bind_eq_some_iff.mp h
  obtain ⟨hid, hpair⟩ := setSpecialPriceRu_keys hset
  exact keys_saveItem (isObject_byModelAndColor hitem) hid hpair hsave

/-- The loop of `desc`. -/
theorem keys_foldlM_saveItem (desc : Bytes) : ∀ {items : List ItemRow}
    {db : CollectionDb collate}, (∀ item ∈ items, db.IsObject item) →
    items.foldlM (fun db item => db.saveItem (setDescRu item desc)) db = some db' →
    db'.keys = db.keys
  | [], db, _, h => by
      cases h
      rfl
  | item :: items, db, hitems, h => by
      rw [List.foldlM_cons] at h
      obtain ⟨db₁, hsave, h⟩ := Option.bind_eq_some_iff.mp h
      obtain ⟨hid, hpair⟩ := setDescRu_keys item desc
      have hkeys := keys_saveItem (hitems item (List.mem_cons_self ..)) hid hpair hsave
      rw [keys_foldlM_saveItem desc
        (fun item' hmem => (hitems item' (List.mem_cons_of_mem _ hmem)).congr hkeys) h, hkeys]

theorem keys_describe {m : UInt32} {name : Option Bytes} {desc : Bytes}
    (h : db.describe m name desc = some db') : db'.keys = db.keys := by
  obtain ⟨items, hitems, h⟩ := Option.bind_eq_some_iff.mp h
  refine keys_foldlM_saveItem desc ?_ h
  cases name with
  | some name =>
      obtain ⟨item, hitem, rfl⟩ := Option.map_eq_some_iff.mp hitems
      intro item' hmem
      rw [List.mem_singleton.mp hmem]
      exact isObject_byModelAndColor hitem
  | none => exact isObject_of_mapM (fun r hr => List.mem_of_mem_filter hr) hitems

theorem pairs_createColor {u : UnicodeClasses} {id : UInt32} {name code : List Char}
    {descRu : Bytes} (h : db.createColor u id name code descRu = some db') : db'.pairs = db.pairs := by
  unfold createColor insertColor at h
  split_ifs at h
  cases h
  rfl

theorem pairs_createMaterial {id : UInt32} {name descRu : Bytes}
    (h : db.createMaterial id name descRu = some db') : db'.pairs = db.pairs := by
  unfold createMaterial insertMaterial at h
  split_ifs at h
  cases h
  rfl

theorem pairs_createModel {data : Model} (h : db.createModel data = some db') :
    db'.pairs = db.pairs := by
  obtain ⟨row, -, rfl⟩ := Option.map_eq_some_iff.mp h
  unfold saveModel
  split <;> rfl

theorem pairs_move {oldId newId : ℕ} (h : db.move oldId newId = some db') :
    db'.pairs = db.pairs := by
  obtain ⟨item, -, h⟩ := Option.bind_eq_some_iff.mp h
  exact pairs_moveItem h

/-! ## What relies on the pairs -/

theorem OneRowPerArticle.eq_of_pair (h : db.OneRowPerArticle) {r r' : ItemRow}
    (hr : r ∈ db.items.rows) (hr' : r' ∈ db.items.rows) (hpair : r.columns.pair = r'.columns.pair) :
    r = r' := by
  rw [OneRowPerArticle, pairs, ModelColorTable.contents, List.map_map] at h
  exact List.inj_on_of_nodup_map h hr hr' hpair

/-- Colours whose names compare as equal are one colour. -/
theorem color_eq_of_name {c c' : Color} (hc : c ∈ db.colors) (hc' : c' ∈ db.colors)
    (hname : collate c.name = collate c'.name) : c = c' :=
  List.inj_on_of_nodup_map db.colorNames hc hc' hname

theorem colorById_spec {id : UInt32} {c : Color} (h : db.colorById id = some c) :
    c ∈ db.colors ∧ c.id = id := Table.mem_of_find? h

theorem modelEntry_spec {r : ItemRow} {row : ModelView} (h : db.modelEntry r = some row) :
    row.modelId = r.columns.modelId
      ∧ ∃ c ∈ db.colors, c.id = r.columns.colorId ∧ c.name = row.colorName := by
  obtain ⟨model, hmodel, h⟩ := Option.bind_eq_some_iff.mp h
  obtain ⟨color, hcolor, h⟩ := Option.bind_eq_some_iff.mp h
  obtain ⟨hmem, hcid⟩ := colorById_spec hcolor
  cases h
  exact ⟨(Table.mem_of_find? hmodel).2, color, hmem, hcid, rfl⟩

/-- Rows that the query of a page cannot tell apart are rows of one pair. -/
theorem pair_eq_of_modelEntry {r r' : ItemRow} {row row' : ModelView}
    (h : db.modelEntry r = some row) (h' : db.modelEntry r' = some row')
    (hid : row'.modelId = row.modelId) (hname : collate row'.colorName = collate row.colorName) :
    r'.columns.pair = r.columns.pair := by
  obtain ⟨hm, c, hc, hcid, hcname⟩ := modelEntry_spec h
  obtain ⟨hm', c', hc', hcid', hcname'⟩ := modelEntry_spec h'
  have hcolor : c' = c := color_eq_of_name hc' hc (by rw [hcname, hcname', hname])
  refine Prod.ext ?_ ?_
  · exact hm'.symm.trans (hid.trans hm)
  · exact hcid'.symm.trans ((congrArg Color.id hcolor).trans hcid)

/-- The page of a row shows that row. -/
theorem modelPage_modelEntry (h : db.OneRowPerArticle) {r : ItemRow} (hr : r ∈ db.items.rows)
    {row : ModelView} (hrow : db.modelEntry r = some row) :
    db.modelPage row.modelId row.colorName = [row] := by
  obtain ⟨pre, post, hsplit⟩ := List.append_of_mem hr
  have hnodup : (pre ++ r :: post).Nodup := by
    rw [← hsplit]
    exact List.Nodup.of_map ModelColor.id db.items.primaryKey
  have hother : ∀ rows ⊆ db.items.rows, r ∉ rows →
      (rows.filterMap db.modelEntry).filter (fun row' =>
        row'.modelId = row.modelId ∧ collate row'.colorName = collate row.colorName) = [] := by
    intro rows hsub hnot
    rw [List.filter_eq_nil_iff]
    intro row' hrow' hsame
    obtain ⟨r', hr', hentry⟩ := List.mem_filterMap.mp hrow'
    obtain ⟨hid, hname⟩ := of_decide_eq_true hsame
    have heq := h.eq_of_pair (hsub hr') hr (pair_eq_of_modelEntry hrow hentry hid hname)
    exact hnot (heq ▸ hr')
  have hpre := hother pre (by rw [hsplit]; exact List.subset_append_left ..)
    fun hmem => (List.disjoint_of_nodup_append hnodup) hmem (List.mem_cons_self ..)
  have hpost := hother post (by
      rw [hsplit]
      exact fun x hx => List.mem_append_right _ (List.mem_cons_of_mem _ hx))
    (List.nodup_cons.mp (List.Nodup.of_append_right hnodup)).1
  rw [modelPage, modelViewRu, hsplit, List.filterMap_append, List.filterMap_cons_some hrow,
    List.filter_append, hpre, List.filter_cons_of_pos (by simp), hpost]
  rfl

/-- The two views show one row alike. -/
theorem modelEntry_of_collectionEntry {r : ItemRow} {entry : CollectionView}
    (h : db.collectionEntry r = some entry) :
    ∃ row, db.modelEntry r = some row ∧ row.modelId = entry.modelId
      ∧ row.colorName = entry.colorName ∧ row.price = entry.price
      ∧ row.specialPrice = entry.specialPrice := by
  obtain ⟨model, hmodel, h⟩ := Option.bind_eq_some_iff.mp h
  obtain ⟨color, hcolor, h⟩ := Option.bind_eq_some_iff.mp h
  cases h
  cases hrow : db.modelEntry r with
  | none =>
      rw [modelEntry, hmodel, Option.bind_eq_bind, Option.bind_some, hcolor] at hrow
      cases hrow
  | some row =>
      rw [modelEntry, hmodel, Option.bind_eq_bind, Option.bind_some, hcolor] at hrow
      cases hrow
      exact ⟨_, rfl, rfl, rfl, rfl, rfl⟩

/-- An entry of the collection leads to a page with its prices. -/
theorem modelPage_entry (h : db.OneRowPerArticle) {entry : CollectionView}
    (hentry : entry ∈ db.collectionViewRu) :
    ∃ row, db.modelPage entry.modelId entry.colorName = [row] ∧ row.price = entry.price
      ∧ row.specialPrice = entry.specialPrice := by
  obtain ⟨r, hr, hentry⟩ := List.mem_filterMap.mp hentry
  rw [List.mem_insertionSort] at hr
  obtain ⟨row, hrow, hid, hname, hprice, hspecial⟩ := modelEntry_of_collectionEntry hentry
  refine ⟨row, ?_, hprice, hspecial⟩
  rw [← hid, ← hname]
  exact modelPage_modelEntry h hr hrow

/-- The image directory of an item. -/
def directory (db : CollectionDb collate) (r : ItemRow) : Option Bytes :=
  (db.colorById r.columns.colorId).map fun c => modelId r.columns.modelId c.name

theorem directory_inj {r r' : ItemRow} {dir : Bytes} (h : db.directory r = some dir)
    (h' : db.directory r' = some dir) : r.columns.pair = r'.columns.pair := by
  obtain ⟨c, hc, hdir⟩ := Option.map_eq_some_iff.mp h
  obtain ⟨c', hc', hdir'⟩ := Option.map_eq_some_iff.mp h'
  obtain ⟨hmem, hid⟩ := colorById_spec hc
  obtain ⟨hmem', hid'⟩ := colorById_spec hc'
  obtain ⟨hm, hname⟩ := modelId_inj (hdir.trans hdir'.symm)
  have hcolor : c = c' := color_eq_of_name hmem hmem' (congrArg collate hname)
  exact Prod.ext hm (hid.symm.trans ((congrArg Color.id hcolor).trans hid'))

end CollectionDb

/-! ## Scripts -/

/-- The database as the server and as the running script see it, and
`pub/model`. -/
structure AdminState (collate : Bytes → Bytes) (Content : Type) where
  committed : CollectionDb collate
  working : CollectionDb collate
  files : Bytes → Directory Content

inductive AdminAct (Photo Content : Type) where
  | createColor (id : UInt32) (name code : List Char) (descRu : Bytes)
  | createMaterial (id : UInt32) (name descRu : Bytes)
  | createModel (data : Model)
  /-- With the text of the model, which the data leave open. -/
  | createItem (modelId : Bytes) (data : ItemColumns)
  | move (oldId newId : ℕ)
  | specialPrice (modelId : UInt32) (colorName : Bytes) (price : Option PriceNumber)
  | describe (modelId : UInt32) (colorName : Option Bytes) (desc : Bytes)
  /-- The first `count` commands of `add_image` or `remove_image` for the
  item with an id; should a `convert` be next it fails and leaves `left`. -/
  | photo (id : ℕ) (call : ImageCall Photo) (count : ℕ) (left : Option Content)
  | commit
  /-- The script ends or dies. -/
  | exit

section Scripts

variable {collate : Bytes → Bytes} {Photo Content : Type}

namespace AdminState

/-- What has not been committed is lost. -/
def rollback (s : AdminState collate Content) : AdminState collate Content :=
  { s with working := s.committed }

/-- A call that writes the database or dies. -/
def write (s : AdminState collate Content) : Option (CollectionDb collate) → AdminState collate Content
  | some db => { s with working := db }
  | none => s.rollback

/-- The directory after a part of the commands. -/
def partOf (converted : ImageType → Photo → Content) (images : ItemImages Content)
    (cs : List (Command Photo)) (count : ℕ) (left : Option Content) : Directory Content :=
  let files := (execAll converted images (cs.take count)).files
  match cs[count]? with
  | some (.convert imageType _ num) => Function.update files (imageName imageType num) left
  | _ => files

/-- `add_image` and `remove_image`, up to the command they come to. -/
def photo (converted : ImageType → Photo → Content) (s : AdminState collate Content) (id : ℕ)
    (call : ImageCall Photo) (count : ℕ) (left : Option Content) : AdminState collate Content :=
  match s.working.itemById id with
  | none => s.rollback
  | some item =>
      match s.working.directory item, call.commands item.columns.numImages with
      | some dir, some cs =>
          let images : ItemImages Content :=
            { numImages := item.columns.numImages, files := s.files dir }
          let files := Function.update s.files dir (partOf converted images cs count left)
          if cs.length ≤ count then
            let numImages := (execAll converted images cs).numImages
            { s with files := files }.write (s.working.saveItem
              { item with columns := { item.columns with numImages := numImages } })
          else { s with files := files }.rollback
      | _, _ => s.rollback

end AdminState

/-- One call of a script. -/
def adminStep (u : UnicodeClasses) (idColumn : Bytes → Option UInt32)
    (converted : ImageType → Photo → Content) (s : AdminState collate Content) :
    AdminAct Photo Content → Option (AdminState collate Content × List Empty)
  | .createColor id name code descRu => some (s.write (s.working.createColor u id name code descRu), [])
  | .createMaterial id name descRu => some (s.write (s.working.createMaterial id name descRu), [])
  | .createModel data => some (s.write (s.working.createModel data), [])
  | .createItem modelId data => some (s.write (s.working.createItem idColumn modelId data), [])
  | .move oldId newId => some (s.write (s.working.move oldId newId), [])
  | .specialPrice modelId colorName price =>
      some (s.write (s.working.specialPrice modelId colorName price), [])
  | .describe modelId colorName desc => some (s.write (s.working.describe modelId colorName desc), [])
  | .photo id call count left => some (s.photo converted id call count left, [])
  | .commit => some ({ s with committed := s.working }, [])
  | .exit => some (s.rollback, [])

/-- The schema without rows, over any files. -/
def newStore (files : Bytes → Directory Content) : AdminState collate Content :=
  { committed := .empty, working := .empty, files := files }

/-- An item whose texts are true and whose numbers refer to rows is the
first of its model in its colour. -/
def firstOfPair (idColumn : Bytes → Option UInt32) (_ : List Empty)
    (s : AdminState collate Content) : AdminAct Photo Content → Prop
  | .createItem modelId data =>
      ∀ number ∈ idColumn modelId, (isTrue (some modelId) ∧ data.colorId ≠ 0)
        ∧ s.working.References { data with modelId := number } →
          (number, data.colorId) ∉ s.working.pairs
  | _ => True

instance (idColumn : Bytes → Option UInt32) (log : List Empty) (s : AdminState collate Content)
    (a : AdminAct Photo Content) : Decidable (firstOfPair idColumn log s a) := by
  unfold firstOfPair
  split
  · exact Option.decidableForallMem _
  · infer_instance

/-! ## What the calls keep -/

variable {u : UnicodeClasses} {idColumn : Bytes → Option UInt32}
  {converted : ImageType → Photo → Content}

/-- Both views of the database have one row per article. -/
structure AdminInv (s : AdminState collate Content) : Prop where
  committed : s.committed.OneRowPerArticle
  working : s.working.OneRowPerArticle

theorem AdminInv.rollback {s : AdminState collate Content} (h : AdminInv s) : AdminInv s.rollback :=
  ⟨h.committed, h.committed⟩

theorem AdminInv.write {s : AdminState collate Content} (h : AdminInv s)
    {db? : Option (CollectionDb collate)}
    (hdb : ∀ db, db? = some db → db.OneRowPerArticle) : AdminInv (s.write db?) := by
  cases db? with
  | none => exact h.rollback
  | some db => exact ⟨h.committed, hdb db rfl⟩

/-- A call that keeps the pairs. -/
theorem AdminInv.write_pairs {s : AdminState collate Content} (h : AdminInv s)
    {db? : Option (CollectionDb collate)}
    (hdb : ∀ db, db? = some db → db.pairs = s.working.pairs) : AdminInv (s.write db?) :=
  h.write fun db hsome => by
    rw [CollectionDb.OneRowPerArticle, hdb db hsome]
    exact h.working

theorem AdminInv.createItem {s : AdminState collate Content} (h : AdminInv s) {modelId : Bytes}
    {data : ItemColumns}
    (hfirst : ∀ number ∈ idColumn modelId, (isTrue (some modelId) ∧ data.colorId ≠ 0)
      ∧ s.working.References { data with modelId := number } →
        (number, data.colorId) ∉ s.working.pairs) :
    AdminInv (s.write (s.working.createItem idColumn modelId data)) := by
  refine h.write fun _ hdb => ?_
  obtain ⟨number, hnumber, hcreates⟩ :=
    CollectionDb.isSome_createItem_iff.mp (Option.isSome_of_mem hdb)
  exact (CollectionDb.oneRow_createItem_iff hnumber hdb).mpr
    ⟨h.working, hfirst number hnumber hcreates⟩

/-- A call that creates another item of a pair makes a second row of it. -/
theorem repeats_of_not_firstOfPair {log : List Empty} {s : AdminState collate Content}
    {a : AdminAct Photo Content} (hnot : ¬ firstOfPair idColumn log s a) :
    ∃ s', adminStep u idColumn converted s a = some (s', []) ∧ ¬ s'.working.OneRowPerArticle := by
  unfold firstOfPair at hnot
  split at hnot
  · rename_i modelId data
    obtain ⟨number, hnot⟩ := not_forall.mp hnot
    obtain ⟨hnumber, hnot⟩ := Classical.not_imp.mp hnot
    obtain ⟨hcreates, hmem⟩ := Classical.not_imp.mp hnot
    obtain ⟨db, hdb⟩ := Option.isSome_iff_exists.mp
      (CollectionDb.isSome_createItem_iff.mpr ⟨number, hnumber, hcreates⟩)
    refine ⟨{ s with working := db }, ?_, fun hone => ?_⟩
    · rw [adminStep, hdb]
      rfl
    · exact hmem ((CollectionDb.oneRow_createItem_iff hnumber hdb).mp hone).2
  · exact absurd trivial hnot

theorem adminInv_photo {s : AdminState collate Content} (h : AdminInv s) (id : ℕ)
    (call : ImageCall Photo) (count : ℕ) (left : Option Content) :
    AdminInv (s.photo converted id call count left) := by
  unfold AdminState.photo
  split
  · exact h.rollback
  · rename_i item hitem
    dsimp only
    split
    · rename_i dir cs hdir hcs
      have hfiles : ∀ files : Bytes → Directory Content, AdminInv { s with files := files } :=
        fun _ => ⟨h.committed, h.working⟩
      split
      · refine (hfiles _).write_pairs fun db hsave => ?_
        have hkeys : db.keys = s.working.keys := by
          refine CollectionDb.keys_saveItem (CollectionDb.isObject_itemById hitem).1 ?_ ?_ hsave
          · rfl
          · rfl
        exact CollectionDb.pairs_eq_of_keys hkeys
      · exact (hfiles _).rollback
    · exact h.rollback

theorem rollback_files (s : AdminState collate Content) : s.rollback.files = s.files := rfl

theorem write_files (s : AdminState collate Content) (db? : Option (CollectionDb collate)) :
    (s.write db?).files = s.files := by
  cases db? <;> rfl

/-- Photos of one item leave the directories of all others alone. -/
theorem photo_frame {s : AdminState collate Content} (h : s.working.OneRowPerArticle) {id : ℕ}
    {r : ItemRow} (hr : r ∈ s.working.items.rows) (hid : r.id ≠ id) {dir : Bytes}
    (hdir : s.working.directory r = some dir) (call : ImageCall Photo) (count : ℕ)
    (left : Option Content) : (s.photo converted id call count left).files dir = s.files dir := by
  unfold AdminState.photo
  split
  · rw [rollback_files]
  · rename_i item hitem
    dsimp only
    split
    · rename_i dir' cs hdir' hcs
      have hne : dir ≠ dir' := by
        rintro rfl
        obtain ⟨⟨r₀, hr₀, hid₀, hpair⟩, hitemId⟩ := CollectionDb.isObject_itemById hitem
        have heq := h.eq_of_pair hr hr₀ ((CollectionDb.directory_inj hdir hdir').trans hpair.symm)
        exact hid (by rw [heq, hid₀, hitemId])
      split
      · rw [write_files]
        exact Function.update_of_ne hne ..
      · rw [rollback_files]
        exact Function.update_of_ne hne ..
    · rw [rollback_files]

/-- A call that comes to its end does to the item's directory what the
operation does. -/
theorem photo_perform {s : AdminState collate Content} {id count : ℕ} {call : ImageCall Photo}
    {item : ItemRow} {dir : Bytes} {images : ItemImages Content}
    (hitem : s.working.itemById id = some item) (hdir : s.working.directory item = some dir)
    (hperform : perform converted { numImages := item.columns.numImages, files := s.files dir } call
      = some images)
    (hcount : ∀ cs, call.commands item.columns.numImages = some cs → cs.length ≤ count)
    (left : Option Content) :
    (s.photo converted id call count left).files = Function.update s.files dir images.files := by
  obtain ⟨cs, hcs, rfl⟩ := Option.map_eq_some_iff.mp hperform
  have hlen := hcount cs hcs
  have hall : ∀ images : ItemImages Content, AdminState.partOf converted images cs count left
      = (execAll converted images cs).files := by
    intro images
    rw [AdminState.partOf, List.take_of_length_le hlen, List.getElem?_eq_none hlen]
  unfold AdminState.photo
  rw [hitem]
  dsimp only at hcs ⊢
  rw [hdir, hcs]
  dsimp only
  rw [if_pos hlen, write_files, hall]

theorem adminInv_step {log es : List Empty} {s s' : AdminState collate Content}
    {a : AdminAct Photo Content} (h : AdminInv s) (hok : firstOfPair idColumn log s a)
    (hstep : adminStep u idColumn converted s a = some (s', es)) : AdminInv s' := by
  cases a with
  | createColor id name code descRu =>
      cases hstep
      exact h.write_pairs fun db hdb => CollectionDb.pairs_createColor hdb
  | createMaterial id name descRu =>
      cases hstep
      exact h.write_pairs fun db hdb => CollectionDb.pairs_createMaterial hdb
  | createModel data =>
      cases hstep
      exact h.write_pairs fun db hdb => CollectionDb.pairs_createModel hdb
  | createItem modelId data =>
      cases hstep
      exact h.createItem hok
  | move oldId newId =>
      cases hstep
      exact h.write_pairs fun db hdb => CollectionDb.pairs_move hdb
  | specialPrice modelId colorName price =>
      cases hstep
      exact h.write_pairs fun db hdb =>
        CollectionDb.pairs_eq_of_keys (CollectionDb.keys_specialPrice hdb)
  | describe modelId colorName desc =>
      cases hstep
      exact h.write_pairs fun db hdb => CollectionDb.pairs_eq_of_keys (CollectionDb.keys_describe hdb)
  | photo id call count left =>
      cases hstep
      exact adminInv_photo h id call count left
  | commit =>
      cases hstep
      exact ⟨h.working, h.working⟩
  | exit =>
      cases hstep
      exact h.rollback

theorem adminInv_reach {files : Bytes → Directory Content} {log : List Empty}
    {s : AdminState collate Content}
    (h : Machine.Reach (adminStep u idColumn converted) (firstOfPair idColumn) (newStore files) log s) :
    AdminInv s := by
  refine h.invariant (fun _ s => AdminInv s) ?_ ?_
  · exact ⟨List.nodup_nil, List.nodup_nil⟩
  · exact fun hinv hok hstep => adminInv_step hinv hok hstep

/-- Runs of the scripts in which no created item repeats the model and the
colour of another: no two rows have one pair, an entry of the collection
leads to a page with its own prices, and the photos of an item leave the
directories of the others alone. A call that breaks the condition ends the
first of these at once. -/
theorem articles_unique (u : UnicodeClasses) (idColumn : Bytes → Option UInt32)
    (converted : ImageType → Photo → Content) (files : Bytes → Directory Content) {log : List Empty}
    {s : AdminState collate Content}
    (hreach : Machine.Reach (adminStep u idColumn converted) (firstOfPair idColumn) (newStore files)
      log s) :
    (s.committed.OneRowPerArticle ∧ s.working.OneRowPerArticle)
    ∧ (∀ entry ∈ s.committed.collectionViewRu,
        ∃ row, s.committed.modelPage entry.modelId entry.colorName = [row]
          ∧ row.price = entry.price ∧ row.specialPrice = entry.specialPrice)
    ∧ (∀ id call count left, ∀ r ∈ s.working.items.rows, r.id ≠ id →
        ∀ dir, s.working.directory r = some dir →
          (s.photo converted id call count left).files dir = s.files dir)
    ∧ ∀ a : AdminAct Photo Content, ¬ firstOfPair idColumn log s a →
        ∃ s', adminStep u idColumn converted s a = some (s', []) ∧ ¬ s'.working.OneRowPerArticle := by
  have hinv := adminInv_reach hreach
  refine ⟨⟨hinv.committed, hinv.working⟩, ?_, ?_, ?_⟩
  · exact fun entry hentry => CollectionDb.modelPage_entry hinv.committed hentry
  · exact fun id call count left r hr hid dir hdir =>
      photo_frame hinv.working hr hid hdir call count left
  · exact fun a hnot => repeats_of_not_firstOfPair hnot

end Scripts

/-! ## Two runs -/

/-- `\w` and `\d` of ASCII. -/
def asciiClasses : UnicodeClasses := { word := fun _ => false, digit := fun _ => false }

/-- A column that takes digits only. -/
def digitsColumn (text : Bytes) : Option UInt32 :=
  if text.all Decimal.isDigit ∧ Decimal.value text < 2 ^ 32 then
    some (UInt32.ofNat (Decimal.value text))
  else none

/-- An item in the first colour. -/
def sampleItem (priceRu : ℤ) : ItemColumns :=
  { modelId := 0, colorId := 1, numImages := 0, sizes := 0, materialId := none, priceRu := priceRu,
    priceEn := 0, specialPriceRu := none, specialPriceEn := none, descRu := [], descEn := [] }

def sampleModel : Model :=
  { id := 7, shortTitleRu := none, shortTitleEn := none, titleRu := bytes "Coat", titleEn := [] }

/-- `color add`, `model add`, `item add` and `photo add`. -/
def sampleActs : List (AdminAct ℕ ℕ) :=
  [.createColor 1 "red".toList "ff0000".toList [], .createModel sampleModel, .commit,
    .createItem (bytes "7") (sampleItem 100), .commit, .photo 1 (.add 10) 4 none, .commit]

def sampleStore : AdminState id ℕ := newStore fun _ _ => none

def sampleStep : AdminState id ℕ → AdminAct ℕ ℕ → Option (AdminState id ℕ × List Empty) :=
  adminStep asciiClasses digitsColumn fun _ photo => photo

theorem articles_unique_sample :
    ∃ log s, Machine.Reach sampleStep (firstOfPair digitsColumn) sampleStore log s
      ∧ s.committed.pairs = [(7, 1)] ∧ s.committed.OneRowPerArticle := by
  obtain ⟨log, s, hreach, hs⟩ := Machine.exists_reach_of_run sampleStep (firstOfPair digitsColumn)
    sampleStore sampleActs (fun _ s => s.committed.pairs == [(7, 1)]) (by decide +kernel)
  exact ⟨log, s, hreach, by simpa using hs,
    (articles_unique asciiClasses digitsColumn _ _ hreach).1.1⟩

/-- `item add` twice: the entry for 200 leads to a page for 100, and a photo
for the second item is written over the one of the first. -/
theorem articles_repeated :
    ∃ log s, Machine.Reach sampleStep Machine.anyOrder sampleStore log s
      ∧ s.committed.pairs = [(7, 1), (7, 1)]
      ∧ (s.committed.collectionViewRu.map fun entry => (entry.price,
          (s.committed.modelPage entry.modelId entry.colorName).map ModelView.price))
        = [(200, [100]), (100, [100])]
      ∧ s.files (bytes "7-red") (imageName .big 0) = some 10
      ∧ (s.photo (fun _ photo => photo) 2 (.add 20) 4 none).files (bytes "7-red") (imageName .big 0)
        = some 20 := by
  obtain ⟨log, s, hreach, hs⟩ := Machine.exists_reach_of_run sampleStep Machine.anyOrder sampleStore
    (sampleActs ++ [.createItem (bytes "7") (sampleItem 200), .commit])
    (fun _ s => s.committed.pairs == [(7, 1), (7, 1)]
      && (s.committed.collectionViewRu.map fun entry => (entry.price,
          (s.committed.modelPage entry.modelId entry.colorName).map ModelView.price))
        == [(200, [100]), (100, [100])]
      && s.files (bytes "7-red") (imageName .big 0) == some 10
      && (s.photo (fun _ photo => photo) 2 (.add 20) 4 none).files (bytes "7-red")
        (imageName .big 0) == some 20) (by decide +kernel)
  simp only [Bool.and_eq_true, beq_iff_eq] at hs
  exact ⟨log, s, hreach, hs.1.1.1, hs.1.1.2, hs.1.2, hs.2⟩

/-- The text of a model 0 may be true, and then two of its items are rows
of one pair, too. -/
example : (Machine.run sampleStep Machine.anyOrder [] sampleStore
      [.createColor 1 "red".toList "ff0000".toList [], .createModel { sampleModel with id := 0 },
        .createItem (bytes "00") (sampleItem 100), .createItem (bytes "00") (sampleItem 200)]).map
      (fun r => r.2.working.pairs)
    = some [(0, 1), (0, 1)] := by decide +kernel

end Simurga
