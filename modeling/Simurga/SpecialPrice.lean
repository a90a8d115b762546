import Simurga.Admin
import Simurga.PerlNumber
import Simurga.Lib.Batch
import Mathlib.Data.List.Find

/-!
# Special prices

`sprice` and `scsv` of `sbin/item`, on the texts they are given. Both take
a price or its absence to an item by the accessor that passes over false
values, so a price that is a true text and the number 0 leaves the item as
it is (`Ignored`, `neverStale_iff`). A line of `scsv` is one `sprice`
(`scsvStep_eq`), but a file is one transaction, and the commands are one
each (`scsv_eq_iff`).

The mode of the server is a parameter: a strict one refuses a price that
the column has no digits for.
-/

namespace Simurga

/-- The number of a price, and what the column takes for it. -/
def priceNumber (strict : Bool) (price : Bytes) : PriceNumber :=
  let number := PerlNumber.ofText price
  { isFalse := number = .finite 0
    cents := number.decimalColumn strict }

/-- The price of `sprice`: `if ($price eq '-' || !$price)` it is removed. -/
def spricePrice (strict : Bool) (price : Option Bytes) : Option PriceNumber :=
  if price = some (bytes "-") ∨ ¬ isTrue price then none
  else some (priceNumber strict (price.getD []))

/-- The price of a line of `scsv`: `if ($sprice ne '-' && $sprice)` it is set. -/
def scsvPrice (strict : Bool) (sprice : Option Bytes) : Option PriceNumber :=
  if sprice ≠ some (bytes "-") ∧ isTrue sprice then some (priceNumber strict (sprice.getD []))
  else none

/-- The model and the colour that are asked for; no colour has no name. -/
def ItemQuery.target : ItemQuery → Option (UInt32 × Bytes)
  | .byModelAndColor modelId color => do
      let color ← color
      let modelId ← (PerlNumber.ofText (modelId.getD [])).modelId
      pure (modelId, color)
  | .byModel _ => none

/-- The text is true and no `-`, and its number is false. -/
def Ignored (price : Bytes) : Prop :=
  price ≠ bytes "-" ∧ isTrue (some price) = true ∧ PerlNumber.ofText price = .finite 0

instance (price : Bytes) : Decidable (Ignored price) := inferInstanceAs (Decidable (_ ∧ _ ∧ _))

namespace CollectionDb

variable {collate : Bytes → Bytes}

/-- `sprice`. -/
def sprice (strict : Bool) (db : CollectionDb collate) (art : Bytes) (price : Option Bytes) :
    Option (CollectionDb collate) := do
  let (modelId, color) ← (ItemScript.sprice art).target
  db.specialPrice modelId color (spricePrice strict price)

/-- The body of the loop of `scsv`. -/
def scsvStep (strict : Bool) (db : CollectionDb collate) (line : Bytes) :
    Option (CollectionDb collate) :=
  match ItemScript.scsvLine line with
  | none => some db
  | some (query, price) => do
      let (modelId, color) ← query.target
      db.specialPrice modelId color (scsvPrice strict price)

/-- `scsv` on the content of the file. -/
def scsv (strict : Bool) (db : CollectionDb collate) (content : Bytes) :
    Option (CollectionDb collate) :=
  Batch.run (scsvStep strict) (Perl.readLines '\n'.toUInt8 content).reverse db

/-- `sprice` with the article and the price of a line. -/
def spriceLine (strict : Bool) (db : CollectionDb collate) (line : Bytes) :
    Option (CollectionDb collate) :=
  let fields := Perl.splitTwo ';'.toUInt8 line
  db.sprice strict (fields[0]?.getD []) fields[1]?

/-- The special price of the item of an article, if there is such an item. -/
def savedPrice (db : CollectionDb collate) (art : Bytes) : Option (Option ℤ) := do
  let (modelId, color) ← (ItemScript.sprice art).target
  let item ← db.byModelAndColor modelId color
  pure item.columns.specialPriceRu

end CollectionDb

/-! ## What the commands write -/

/-- The statement takes the price, or does not come to it. -/
def Storable (price : Option PriceNumber) : Prop :=
  ∀ number ∈ price, number.isFalse = true ∨ number.cents.isSome = true

instance (price : Option PriceNumber) : Decidable (Storable price) :=
  inferInstanceAs (Decidable (∀ number ∈ price, _))

namespace ItemColumns

def withSpecialPrice (columns : ItemColumns) (price : Option ℤ) : ItemColumns :=
  { columns with specialPriceRu := price }

/-- The columns with the defaults of an object. -/
def defaults (columns : ItemColumns) : ItemColumns := columns.fetched.getD columns

variable {columns columns' : ItemColumns} {price price' : Option ℤ}

@[simp] theorem withSpecialPrice_specialPriceRu :
    (columns.withSpecialPrice price).specialPriceRu = price := rfl

@[simp] theorem withSpecialPrice_withSpecialPrice :
    (columns.withSpecialPrice price).withSpecialPrice price' = columns.withSpecialPrice price' := rfl

@[simp] theorem withSpecialPrice_self :
    columns.withSpecialPrice columns.specialPriceRu = columns := rfl

/-- The defaults do not depend on the special price. -/
@[simp] theorem fetched_withSpecialPrice : (columns.withSpecialPrice price).fetched
    = columns.fetched.map fun columns => columns.withSpecialPrice price := by
  unfold fetched new withSpecialPrice
  dsimp only
  split <;> rfl

@[simp] theorem defaults_withSpecialPrice :
    (columns.withSpecialPrice price).defaults = columns.defaults.withSpecialPrice price := by
  rw [defaults, fetched_withSpecialPrice, defaults]
  cases columns.fetched <;> rfl

theorem fetched_fetched
    (h : columns.fetched = some columns') : columns'.fetched = some columns' := by
  have hpair := pair_new h
  obtain ⟨hmodel, hcolor⟩ := Prod.mk.inj hpair
  unfold fetched new at h ⊢
  split at h
  · case isTrue htrue =>
      rw [hmodel, hcolor, if_pos htrue]
      cases h
      dsimp only
      cases hen : isTrue (some columns.descEn) <;> cases hru : isTrue (some columns.descRu) <;>
        simp [hen, hru]
  · cases h

@[simp] theorem defaults_defaults : columns.defaults.defaults = columns.defaults := by
  cases h : columns.fetched with
  | none => simp [defaults, h]
  | some columns' => simp [defaults, h, fetched_fetched h]

end ItemColumns

theorem ModelColorTable.eq_of_rows {Columns : Type} {t t' : ModelColorTable Columns}
    (h : t.rows = t'.rows) : t = t' := by
  cases t
  cases t'
  cases h
  rfl

namespace CollectionDb

section Item

variable {collate : Bytes → Bytes} {db db' : CollectionDb collate} {m : UInt32} {name : Bytes}
  {price : Option PriceNumber} {item item' : ItemRow}

def isOfPair (modelId colorId : UInt32) (r : ItemRow) : Bool :=
  r.columns.modelId = modelId ∧ r.columns.colorId = colorId

/-- The row of a pair in the order of the table. -/
def rowOfPair (db : CollectionDb collate) (modelId colorId : UInt32) : Option ItemRow :=
  db.items.rows.find? (isOfPair modelId colorId)

theorem byModelAndColor_eq {color : Color} (hcolor : db.colorByName name = some color) :
    db.byModelAndColor m name = (db.rowOfPair m color.id).bind fun row =>
      row.columns.fetched.map fun columns => { row with columns := columns } := by
  unfold byModelAndColor
  rw [hcolor, Option.bind_eq_bind, Option.bind_some]
  change (db.rowOfPair m color.id).bind _ = _
  congr 1
  funext row
  cases row.columns.fetched <;> rfl

theorem rowOfPair_spec {colorId : UInt32} {row : ItemRow} (h : db.rowOfPair m colorId = some row) :
    row ∈ db.items.rows ∧ row.columns.modelId = m ∧ row.columns.colorId = colorId :=
  ⟨List.mem_of_find?_eq_some h, by simpa [isOfPair] using List.find?_some h⟩

/-- The object of an item is its row with some defaults. -/
theorem byModelAndColor_spec (h : db.byModelAndColor m name = some item) :
    ∃ color row columns, db.colorByName name = some color ∧ db.rowOfPair m color.id = some row
      ∧ row.columns.fetched = some columns ∧ item = { row with columns := columns } := by
  cases hcolor : db.colorByName name with
  | none => simp [byModelAndColor, hcolor] at h
  | some color =>
      rw [byModelAndColor_eq hcolor] at h
      obtain ⟨row, hrow, h⟩ := Option.bind_eq_some_iff.mp h
      obtain ⟨columns, hnew, rfl⟩ := Option.map_eq_some_iff.mp h
      exact ⟨color, row, columns, rfl, hrow, hnew, rfl⟩

/-- Which item is found depends on the colours and the keys. -/
theorem id_byModelAndColor (db : CollectionDb collate) (m : UInt32) (name : Bytes) :
    (db.byModelAndColor m name).map ModelColor.id = (db.colorByName name).bind fun color =>
      (db.keys.find? fun key => key.2 = (m, color.id)).bind fun key =>
        if m ≠ 0 ∧ color.id ≠ 0 then some key.1 else none := by
  cases hcolor : db.colorByName name with
  | none => simp [byModelAndColor, hcolor]
  | some color =>
      have hkey : (db.keys.find? fun key => key.2 = (m, color.id))
          = (db.rowOfPair m color.id).map fun row => (row.id, row.columns.pair) := by
        rw [keys, List.find?_map, rowOfPair]
        congr 2
        funext row
        simp [isOfPair, ItemColumns.pair]
      rw [byModelAndColor_eq hcolor, Option.bind_some, hkey]
      cases hrow : db.rowOfPair m color.id with
      | none => rfl
      | some row =>
          obtain ⟨-, hmodel, hcolorId⟩ := rowOfPair_spec hrow
          have hsome := row.columns.isSome_fetched_iff
          rw [hmodel, hcolorId] at hsome
          rw [Option.bind_some, Option.map_some, Option.bind_some]
          split
          · case isTrue hne =>
              obtain ⟨columns, hcolumns⟩ := Option.isSome_iff_exists.mp (hsome.mpr hne)
              rw [hcolumns]
              rfl
          · case isFalse hzero =>
              rw [Option.not_isSome_iff_eq_none.mp (mt hsome.mp hzero)]
              rfl

theorem setSpecialPriceRu_keeps (h : setSpecialPriceRu item price = some item') :
    item'.columns.materialId = item.columns.materialId := by
  unfold setSpecialPriceRu at h
  split at h
  · cases h
    rfl
  · split at h
    · cases h
      rfl
    · obtain ⟨cents, -, rfl⟩ := Option.map_eq_some_iff.mp h
      rfl

theorem isSome_setSpecialPriceRu_iff : (setSpecialPriceRu item price).isSome ↔ Storable price := by
  cases price with
  | none => simp [setSpecialPriceRu, Storable]
  | some number =>
      rw [setSpecialPriceRu]
      by_cases hfalse : number.isFalse = true
      · simp [Storable, hfalse]
      · simp [Storable, hfalse]

theorem references_byModelAndColor (h : db.byModelAndColor m name = some item) :
    db.References item.columns := by
  obtain ⟨color, row, columns, -, hrow, hnew, rfl⟩ := byModelAndColor_spec h
  exact (references_new hnew).mpr (db.references_of_mem (List.mem_map_of_mem (rowOfPair_spec hrow).1))

/-- The item is found and its price is taken; then the statement holds. -/
theorem isSome_specialPrice_iff :
    (db.specialPrice m name price).isSome ↔ (db.byModelAndColor m name).isSome ∧ Storable price := by
  unfold specialPrice
  cases hitem : db.byModelAndColor m name with
  | none => simp
  | some item =>
      have hstorable : (setSpecialPriceRu item price).isSome ↔ Storable price :=
        isSome_setSpecialPriceRu_iff
      rw [← hstorable]
      cases hset : setSpecialPriceRu item price with
      | none => simp [hset]
      | some item' =>
          have hrefs : db.References item'.columns := by
            obtain ⟨hmodel, hcolor⟩ := Prod.mk.inj (setSpecialPriceRu_keys hset).2
            have hrefs := references_byModelAndColor hitem
            unfold References at hrefs ⊢
            rwa [hmodel, hcolor, setSpecialPriceRu_keeps hset]
          simp [hset, saveItem, updateItem, hrefs]

theorem colors_specialPrice (h : db.specialPrice m name price = some db') : db'.colors = db.colors := by
  obtain ⟨item, -, h⟩ := Option.bind_eq_some_iff.mp h
  obtain ⟨item', -, h⟩ := Option.bind_eq_some_iff.mp h
  unfold saveItem updateItem at h
  split at h
  · cases h
    rfl
  · cases h

/-- No command changes which items are found. -/
theorem id_byModelAndColor_specialPrice (h : db.specialPrice m name price = some db') (m' : UInt32)
    (name' : Bytes) : (db'.byModelAndColor m' name').map ModelColor.id
      = (db.byModelAndColor m' name').map ModelColor.id := by
  rw [id_byModelAndColor, id_byModelAndColor, colorByName, colorByName, colors_specialPrice h,
    keys_specialPrice h]

/-- The row of the item after the statement. -/
theorem rowOfPair_update {colorId : UInt32} {row : ItemRow} (hrow : db.rowOfPair m colorId = some row)
    {columns : ItemColumns} (hpair : columns.pair = row.columns.pair)
    (h : db.updateItem row.id columns = some db') :
    db'.rowOfPair m colorId = some { row with columns := columns } := by
  unfold updateItem at h
  split at h
  · cases h
    have hmem := (rowOfPair_spec hrow).1
    have hsame : ∀ r ∈ db.items.rows,
        isOfPair m colorId (if r.id = row.id then { r with columns := columns } else r)
          = isOfPair m colorId r := by
      intro r hr
      split
      · rename_i hid
        -- the key is primary, so it is the row itself
        rw [List.inj_on_of_nodup_map db.items.primaryKey hr hmem hid]
        obtain ⟨hmodel, hcolor⟩ := Prod.mk.inj hpair
        rw [isOfPair, hmodel, hcolor, isOfPair]
      · rfl
    change (db.items.rows.map _).find? (isOfPair m colorId) = _
    rw [List.find?_map]
    refine (congrArg (Option.map _) (List.find?_congr hsame)).trans ?_
    change (db.rowOfPair m colorId).map _ = _
    rw [hrow, Option.map_some, if_pos rfl]
  · cases h

/-- What is found after the command is what it set. -/
theorem byModelAndColor_specialPrice (h : db.specialPrice m name price = some db') :
    ∃ item item' after, db.byModelAndColor m name = some item
      ∧ setSpecialPriceRu item price = some item' ∧ db'.byModelAndColor m name = some after
      ∧ after.columns.specialPriceRu = item'.columns.specialPriceRu := by
  have hcolors := colors_specialPrice h
  have hid' := id_byModelAndColor_specialPrice h m name
  obtain ⟨item, hitem, h⟩ := Option.bind_eq_some_iff.mp h
  obtain ⟨item', hset, hsave⟩ := Option.bind_eq_some_iff.mp h
  rw [hitem] at hid'
  obtain ⟨after, hafter, -⟩ := Option.map_eq_some_iff.mp hid'
  refine ⟨item, item', after, hitem, hset, hafter, ?_⟩
  obtain ⟨color, row, columns, hcolor, hrow, hnew, rfl⟩ := byModelAndColor_spec hitem
  obtain ⟨hid, hpair⟩ := setSpecialPriceRu_keys hset
  rw [saveItem, hid] at hsave
  have hrow' := rowOfPair_update hrow (hpair.trans (ItemColumns.pair_new hnew)) hsave
  obtain ⟨color', row', columns', hcolor', hrow'', hnew', rfl⟩ := byModelAndColor_spec hafter
  rw [colorByName, hcolors, ← colorByName, hcolor] at hcolor'
  cases hcolor'
  rw [hrow'] at hrow''
  cases hrow''
  exact (ItemColumns.new_keeps hnew').2

end Item

end CollectionDb

/-! ## The price -/

/-- The conditions of the two commands are one. -/
theorem scsvPrice_eq (strict : Bool) (price : Option Bytes) :
    scsvPrice strict price = spricePrice strict price := by
  unfold scsvPrice spricePrice
  by_cases hdash : price = some (bytes "-")
  · rw [if_neg fun h => h.1 hdash, if_pos (Or.inl hdash)]
  · by_cases htrue : isTrue price = true
    · rw [if_pos ⟨hdash, htrue⟩, if_neg (not_or.mpr ⟨hdash, not_not_intro htrue⟩)]
    · rw [if_neg fun h => htrue h.2, if_pos (Or.inr htrue)]

/-- No price is one that is empty. -/
theorem spricePrice_getD (strict : Bool) (price : Option Bytes) :
    spricePrice strict (some (price.getD [])) = spricePrice strict price := by
  cases price with
  | none => rfl
  | some price => rfl

/-- No price, or the number of the text in the column. -/
def saved (strict : Bool) (price : Bytes) : Option ℤ :=
  (spricePrice strict (some price)).bind PriceNumber.cents

theorem saved_eq (strict : Bool) (price : Bytes) :
    saved strict price = none
      ∨ saved strict price = (PerlNumber.ofText price).decimalColumn strict := by
  unfold saved spricePrice
  split
  · exact Or.inl rfl
  · exact Or.inr rfl

/-- The price of an item after `sprice`. -/
def priceAfter (strict : Bool) (price : Bytes) (before : Option ℤ) : Option ℤ :=
  if Ignored price then before else saved strict price

/-- The accessor passes over a false number. -/
theorem setSpecialPriceRu_sprice {strict : Bool} {price : Bytes} {item item' : ItemRow}
    (h : CollectionDb.setSpecialPriceRu item (spricePrice strict (some price)) = some item') :
    item' = { item with columns :=
      item.columns.withSpecialPrice (priceAfter strict price item.columns.specialPriceRu) } := by
  unfold priceAfter saved spricePrice at *
  by_cases hremove : some price = some (bytes "-") ∨ ¬ isTrue (some price) = true
  · have hnot : ¬ Ignored price := fun hignored =>
      hremove.elim (fun hdash => hignored.1 (Option.some.inj hdash)) fun hfalse => hfalse hignored.2.1
    rw [if_pos hremove] at h ⊢
    rw [if_neg hnot]
    cases h
    rfl
  · rw [if_neg hremove] at h ⊢
    obtain ⟨hdash, htrue⟩ := not_or.mp hremove
    rw [CollectionDb.setSpecialPriceRu, Option.getD_some] at h
    by_cases hzero : PerlNumber.ofText price = .finite 0
    · have hignored : Ignored price := ⟨by simpa using hdash, not_not.mp htrue, hzero⟩
      rw [if_pos (by simpa [priceNumber] using hzero)] at h
      rw [if_pos hignored]
      exact (Option.some.inj h).symm
    · rw [if_neg (by simpa [priceNumber] using hzero)] at h
      rw [if_neg fun hignored => hzero hignored.2.2]
      obtain ⟨cents, hcents, rfl⟩ := Option.map_eq_some_iff.mp h
      rw [Option.bind_some, Option.getD_some, hcents]
      rfl

namespace CollectionDb

section Price

variable {collate : Bytes → Bytes} {strict : Bool} {db db' : CollectionDb collate} {art : Bytes}

theorem savedPrice_of_item {m : UInt32} {name : Bytes} {item : ItemRow}
    (htarget : (ItemScript.sprice art).target = some (m, name))
    (hitem : db.byModelAndColor m name = some item) :
    db.savedPrice art = some item.columns.specialPriceRu := by
  unfold savedPrice
  rw [htarget, Option.bind_eq_bind, Option.bind_some]
  dsimp only
  rw [hitem]
  rfl

/-- An ignored price leaves the one before, any other is saved or removes it. -/
theorem savedPrice_sprice {price : Bytes} (h : db.sprice strict art (some price) = some db') :
    db'.savedPrice art = (db.savedPrice art).map (priceAfter strict price) := by
  obtain ⟨⟨m, name⟩, htarget, h⟩ := Option.bind_eq_some_iff.mp h
  obtain ⟨item, item', after, hitem, hset, hafter, hprice⟩ := byModelAndColor_specialPrice h
  rw [savedPrice_of_item htarget hitem, savedPrice_of_item htarget hafter, hprice,
    setSpecialPriceRu_sprice hset]
  rfl

theorem isSome_savedPrice {price : Option Bytes} (h : db.sprice strict art price = some db') :
    (db.savedPrice art).isSome := by
  obtain ⟨⟨m, name⟩, htarget, h⟩ := Option.bind_eq_some_iff.mp h
  obtain ⟨item, hitem, -⟩ := Option.bind_eq_some_iff.mp h
  rw [savedPrice_of_item htarget hitem]
  rfl

/-- `scsv` does for a line what `sprice` does, if the line is true. -/
theorem scsvStep_eq (strict : Bool) (db : CollectionDb collate) (line : Bytes) :
    db.scsvStep strict line
      = if isTrue (some (Perl.chomp '\n'.toUInt8 line)) = true then
          db.spriceLine strict (Perl.chomp '\n'.toUInt8 line)
        else some db := by
  unfold scsvStep ItemScript.scsvLine
  dsimp only
  split_ifs with htrue
  · dsimp only [spriceLine, sprice, ItemScript.sprice]
    rw [scsvPrice_eq]
  · rfl

/-- A line with an article and a price. -/
theorem scsvStep_line (strict : Bool) (db : CollectionDb collate) {art price newline : Bytes}
    (hart : ';'.toUInt8 ∉ art) (hline : '\n'.toUInt8 ∉ art ++ price)
    (hnewline : newline = [] ∨ newline = ['\n'.toUInt8]) :
    db.scsvStep strict (art ++ ';'.toUInt8 :: price ++ newline) = db.sprice strict art (some price) := by
  have hchomp : Perl.chomp '\n'.toUInt8 (art ++ ';'.toUInt8 :: price ++ newline)
      = art ++ ';'.toUInt8 :: price := by
    rcases hnewline with rfl | rfl
    · rw [List.append_nil]
      refine Perl.chomp_of_not_mem fun hmem => ?_
      rw [List.mem_append, List.mem_cons] at hmem
      rcases hmem with hmem | hmem | hmem
      · exact hline (List.mem_append_left _ hmem)
      · cases hmem
      · exact hline (List.mem_append_right _ hmem)
    · exact Perl.chomp_append ..
  have htrue : isTrue (some (art ++ ';'.toUInt8 :: price)) = true := by
    have hzero : art ++ ';'.toUInt8 :: price ≠ bytes "0" := by
      intro h
      have hmem : ';'.toUInt8 ∈ bytes "0" := h ▸ by simp
      exact absurd hmem (by decide)
    simp [isTrue, hzero]
  rw [scsvStep_eq, hchomp, if_pos htrue, spriceLine, Perl.splitTwo_append hart]
  rfl

end Price

/-! ## Stale prices -/

/-- The runs of a command for a price: the database before and after, and the
article. -/
abbrev CommandRuns (collate : Bytes → Bytes) :=
  CollectionDb collate → Bytes → CollectionDb collate → Prop

/-- The runs leave a special price that depends on the price they are for:
none, or its number. -/
def NeverStale {collate : Bytes → Bytes} (strict : Bool) (price : Bytes)
    (runs : CommandRuns collate) : Prop :=
  ∃ saved : Option ℤ, (saved = none ∨ saved = (PerlNumber.ofText price).decimalColumn strict)
    ∧ ∀ db art db', runs db art db' → db'.savedPrice art = some saved

section Runs

variable {collate : Bytes → Bytes}

/-- `item sprice art price`. -/
def SpriceRuns (strict : Bool) (price : Bytes) : CommandRuns collate := fun db art db' =>
  db.sprice strict art (some price) = some db'

/-- The line `art;price` of a file. -/
def ScsvRuns (strict : Bool) (price : Bytes) : CommandRuns collate := fun db art db' =>
  ';'.toUInt8 ∉ art ∧ '\n'.toUInt8 ∉ art ++ price
    ∧ ∃ newline, (newline = [] ∨ newline = ['\n'.toUInt8])
      ∧ db.scsvStep strict (art ++ ';'.toUInt8 :: price ++ newline) = some db'

/-- An item with this special price. -/
def pricedItem (specialPriceRu : Option ℤ) : ItemRow where
  id := 1
  columns := { sampleItem 0 with modelId := 7, specialPriceRu := specialPriceRu }

theorem fetched_pricedItem (specialPriceRu : Option ℤ) :
    (pricedItem specialPriceRu).columns.fetched = some (pricedItem specialPriceRu).columns := by
  rw [ItemColumns.fetched, ItemColumns.new, if_pos]
  · rfl
  · rw [isTrue_toString, isTrue_toString]
    exact ⟨show (7 : UInt32) ≠ 0 by decide, show (1 : UInt32) ≠ 0 by decide⟩

/-- One item, with this special price. -/
def pricedDb (specialPriceRu : Option ℤ) : CollectionDb collate where
  materials := []
  colors := [{ id := 1, name := bytes "red", code := bytes "ff0000", descRu := [], descEn := [] }]
  models := [sampleModel]
  items :=
    { rows := [pricedItem specialPriceRu]
      primaryKey := List.nodup_singleton _ }
  materialIds := List.nodup_nil
  materialNames := List.nodup_nil
  colorIds := List.nodup_singleton _
  colorNames := List.nodup_singleton _
  modelIds := List.nodup_singleton _
  modelFk := by simp [ModelColorTable.contents, pricedItem, sampleModel]
  colorFk := by simp [ModelColorTable.contents, pricedItem, sampleItem]
  materialFk := by simp [ModelColorTable.contents, pricedItem, sampleItem]

variable (collate) in
/-- The item is there, and `sprice` does not die on a price that can be stored. -/
theorem pricedDb_sprice (strict : Bool) {price : Bytes}
    (hstorable : Storable (spricePrice strict (some price))) (prior : Option ℤ) :
    (pricedDb prior : CollectionDb collate).savedPrice (bytes "7-red") = some prior
      ∧ ∃ db', (pricedDb prior : CollectionDb collate).sprice strict (bytes "7-red") (some price) = some db' := by
  have htarget : (ItemScript.sprice (bytes "7-red")).target = some (7, bytes "red") := by
    change (PerlNumber.ofText (toString 7)).modelId.bind _ = _
    rw [PerlNumber.modelId_ofText]
    rfl
  have hcolor : (pricedDb prior : CollectionDb collate).colorByName (bytes "red")
      = some { id := 1, name := bytes "red", code := bytes "ff0000", descRu := [], descEn := [] } := by
    simp [colorByName, pricedDb]
  have hitem : (pricedDb prior : CollectionDb collate).byModelAndColor 7 (bytes "red")
      = some (pricedItem prior) := by
    have hrow : (pricedDb prior : CollectionDb collate).rowOfPair 7 1 = some (pricedItem prior) := rfl
    rw [byModelAndColor_eq hcolor, hrow, Option.bind_some, fetched_pricedItem]
    rfl
  refine ⟨savedPrice_of_item htarget hitem, ?_⟩
  have hsome := isSome_specialPrice_iff.mpr ⟨Option.isSome_of_mem hitem, hstorable⟩
  obtain ⟨db', hdb'⟩ := Option.isSome_iff_exists.mp hsome
  refine ⟨db', ?_⟩
  rw [sprice, htarget]
  exact hdb'

/-- Nothing stale is left exactly if the price is not ignored. -/
theorem neverStale_iff {strict : Bool} {price : Bytes} {runs : CommandRuns collate}
    (hsub : ∀ db art db', runs db art db' → SpriceRuns strict price db art db')
    (hred : ∀ db db', SpriceRuns strict price db (bytes "7-red") db' → runs db (bytes "7-red") db') :
    NeverStale strict price runs ↔ ¬ Ignored price := by
  constructor
  · rintro ⟨price', -, hprice'⟩ hignored
    have hstorable : Storable (spricePrice strict (some price)) := by
      intro number hnumber
      left
      unfold spricePrice at hnumber
      split at hnumber
      · cases hnumber
      · cases hnumber
        exact decide_eq_true hignored.2.2
    -- two items that differ in the price they had
    have hprior : ∀ prior : Option ℤ, prior = price' := by
      intro prior
      obtain ⟨hbefore, db', hdb'⟩ := pricedDb_sprice collate strict hstorable prior
      have hafter := savedPrice_sprice hdb'
      rw [hprice' _ _ _ (hred _ _ hdb'), hbefore, Option.map_some, priceAfter, if_pos hignored] at hafter
      exact (Option.some.inj hafter).symm
    have h := (hprior none).trans (hprior (some 0)).symm
    cases h
  · intro hnot
    refine ⟨saved strict price, saved_eq strict price, fun db art db' h => ?_⟩
    have hsprice := hsub db art db' h
    obtain ⟨before, hbefore⟩ := Option.isSome_iff_exists.mp (isSome_savedPrice hsprice)
    rw [savedPrice_sprice hsprice, hbefore, Option.map_some, priceAfter, if_neg hnot]

theorem neverStale_sprice_iff (strict : Bool) (price : Bytes) :
    NeverStale strict price (SpriceRuns strict price : CommandRuns collate) ↔ ¬ Ignored price :=
  neverStale_iff (fun _ _ _ h => h) fun _ _ h => h

theorem neverStale_scsv_iff (strict : Bool) {price : Bytes} (hline : '\n'.toUInt8 ∉ price) :
    NeverStale strict price (ScsvRuns strict price : CommandRuns collate) ↔ ¬ Ignored price := by
  refine neverStale_iff (fun db art db' h => ?_) fun db db' h => ?_
  · obtain ⟨hart, hnone, newline, hnewline, hstep⟩ := h
    rwa [scsvStep_line strict db hart hnone hnewline] at hstep
  · have hnone : '\n'.toUInt8 ∉ bytes "7-red" ++ price := by
      rw [List.mem_append, not_or]
      exact ⟨by decide, hline⟩
    refine ⟨by decide, hnone, [], Or.inl rfl, ?_⟩
    rw [scsvStep_line strict db (by decide) hnone (Or.inl rfl)]
    exact h

/-! ## Files -/

/-- `sprice` for the lines of a file that are not empty, from the last one. -/
def nonEmptyLines (content : Bytes) : List Bytes :=
  ((content.splitOn '\n'.toUInt8).filter (· ≠ [])).reverse

/-- The article of a line. -/
def lineArt (line : Bytes) : Bytes := (Perl.splitTwo ';'.toUInt8 line)[0]?.getD []

/-- The price of a line. -/
def linePrice (line : Bytes) : Bytes := (Perl.splitTwo ';'.toUInt8 line)[1]?.getD []

/-- The id of the item that a line names, if it is there and the price can
be stored. -/
def savedId (strict : Bool) (db : CollectionDb collate) (line : Bytes) : Option ℕ := do
  let (modelId, color) ← (ItemScript.sprice (lineArt line)).target
  let item ← db.byModelAndColor modelId color
  if Storable (spricePrice strict (some (linePrice line))) then some item.id else none

/-- The price that a line gives an item, if it does. -/
def givenPrice (strict : Bool) (db : CollectionDb collate) (id : ℕ) (line : Bytes) :
    Option (Option ℤ) :=
  if db.savedId strict line = some id ∧ ¬ Ignored (linePrice line) then
    some (saved strict (linePrice line))
  else none

/-- The lines, one after the other, leave every row as it is: one that is
saved has its defaults, and the last price that it is given is the one it has. -/
def Unchanged (strict : Bool) (db : CollectionDb collate) (lines : List Bytes) : Prop :=
  ∀ row ∈ db.items.rows, (∃ line ∈ lines, db.savedId strict line = some row.id) →
    row.columns.fetched = some row.columns
      ∧ ∀ price ∈ (lines.filterMap (db.givenPrice strict row.id)).getLast?,
          price = row.columns.specialPriceRu

section Lines

variable {strict : Bool} {db db' : CollectionDb collate} {line : Bytes}

theorem spriceLine_eq (strict : Bool) (db : CollectionDb collate) (line : Bytes) :
    db.spriceLine strict line = db.sprice strict (lineArt line) (some (linePrice line)) := by
  unfold spriceLine sprice lineArt linePrice
  rw [spricePrice_getD]

/-- The items of the lines depend on the colours and the keys. -/
theorem savedId_congr (hcolors : db'.colors = db.colors) (hkeys : db'.keys = db.keys)
    (line : Bytes) : db'.savedId strict line = db.savedId strict line := by
  have hsaved : ∀ db : CollectionDb collate, db.savedId strict line
      = (ItemScript.sprice (lineArt line)).target.bind fun target =>
          ((db.byModelAndColor target.1 target.2).map ModelColor.id).bind fun id =>
            if Storable (spricePrice strict (some (linePrice line))) then some id else none := by
    intro db
    unfold savedId
    simp only [Option.bind_eq_bind, Option.bind_map]
    rfl
  rw [hsaved, hsaved]
  simp only [id_byModelAndColor, colorByName, hcolors, hkeys]

theorem savedId_eq_some {id : ℕ} (h : db.savedId strict line = some id) :
    ∃ m name item, (ItemScript.sprice (lineArt line)).target = some (m, name)
      ∧ db.byModelAndColor m name = some item ∧ item.id = id
      ∧ Storable (spricePrice strict (some (linePrice line))) := by
  obtain ⟨⟨m, name⟩, htarget, h⟩ := Option.bind_eq_some_iff.mp h
  obtain ⟨item, hitem, h⟩ := Option.bind_eq_some_iff.mp h
  split at h
  · rename_i hstorable
    exact ⟨m, name, item, htarget, hitem, Option.some.inj h, hstorable⟩
  · cases h

/-- `sprice` dies on a line exactly if it saves nothing. -/
theorem isSome_spriceLine_iff (db : CollectionDb collate) (line : Bytes) :
    (db.spriceLine strict line).isSome ↔ (db.savedId strict line).isSome := by
  rw [spriceLine_eq, sprice, savedId]
  cases (ItemScript.sprice (lineArt line)).target with
  | none => simp
  | some target =>
      obtain ⟨m, name⟩ := target
      rw [Option.bind_eq_bind, Option.bind_some, Option.bind_eq_bind, Option.bind_some,
        isSome_specialPrice_iff]
      dsimp only
      cases db.byModelAndColor m name with
      | none => simp
      | some item => simp

/-- A row after a line. -/
def lineRow (strict : Bool) (db : CollectionDb collate) (line : Bytes) (row : ItemRow) : ItemRow :=
  let price := priceAfter strict (linePrice line) row.columns.specialPriceRu
  if db.savedId strict line = some row.id then
    { row with columns := row.columns.defaults.withSpecialPrice price }
  else row

/-- What one line does, if it dies or not. -/
theorem spriceLine_spec (strict : Bool) (db : CollectionDb collate) (line : Bytes) :
    let db' := (db.spriceLine strict line).getD db
    db'.materials = db.materials ∧ db'.colors = db.colors ∧ db'.models = db.models
      ∧ db'.keys = db.keys ∧ db'.items.rows = db.items.rows.map (db.lineRow strict line) := by
  have hsome : (db.spriceLine strict line).isSome ↔ (db.savedId strict line).isSome :=
    isSome_spriceLine_iff db line
  cases hid : db.savedId strict line with
  | none =>
      rw [hid, Option.isSome_none, Bool.false_eq_true, iff_false, Option.not_isSome_iff_eq_none] at hsome
      rw [hsome, Option.getD_none]
      have hrow : db.lineRow strict line = id := funext fun row => by simp [lineRow, hid]
      exact ⟨rfl, rfl, rfl, rfl, by rw [hrow, List.map_id]⟩
  | some id =>
      rw [hid] at hsome
      obtain ⟨db', hdb'⟩ := Option.isSome_iff_exists.mp (hsome.mpr rfl)
      obtain ⟨m, name, item, htarget, hitem, rfl, -⟩ := savedId_eq_some hid
      rw [hdb', Option.getD_some]
      rw [spriceLine_eq, sprice, htarget, Option.bind_eq_bind, Option.bind_some] at hdb'
      have hkeys := keys_specialPrice hdb'
      obtain ⟨item₀, hitem₀, hdb'⟩ := Option.bind_eq_some_iff.mp hdb'
      obtain ⟨item', hset, hsave⟩ := Option.bind_eq_some_iff.mp hdb'
      obtain rfl : item = item₀ := Option.some.inj (hitem.symm.trans hitem₀)
      have hitem' := setSpecialPriceRu_sprice hset
      obtain ⟨color, row, columns, -, hrow, hfetched, rfl⟩ := byModelAndColor_spec hitem
      subst hitem'
      unfold saveItem updateItem at hsave
      split at hsave
      · cases hsave
        refine ⟨rfl, rfl, rfl, hkeys, List.map_congr_left fun r hr => ?_⟩
        rw [lineRow, hid]
        by_cases hr' : r.id = row.id
        · -- the key is primary, so it is the row that was found
          obtain rfl := List.inj_on_of_nodup_map db.items.primaryKey hr (rowOfPair_spec hrow).1 hr'
          simp only [if_true, ItemColumns.defaults, hfetched, Option.getD_some,
            (ItemColumns.new_keeps hfetched).2]
        · rw [if_neg hr', if_neg fun heq => hr' (Option.some.inj heq).symm]
      · cases hsave

theorem givenPrice_getD {id : ℕ} (h : db.savedId strict line = some id)
    (last : Option (Option ℤ)) (before : Option ℤ) :
    ((db.givenPrice strict id line).or last).getD before
      = priceAfter strict (linePrice line) (last.getD before) := by
  unfold givenPrice priceAfter
  by_cases hignored : Ignored (linePrice line)
  · rw [if_neg fun hgiven => hgiven.2 hignored, if_pos hignored, Option.none_or]
  · rw [if_pos ⟨h, hignored⟩, if_neg hignored, Option.some_or, Option.getD_some]

/-- A row after lines that are done one by one. -/
def rowAfter (strict : Bool) (db : CollectionDb collate) (lines : List Bytes) (row : ItemRow) :
    ItemRow :=
  let columns := if ∃ line ∈ lines, db.savedId strict line = some row.id then row.columns.defaults
    else row.columns
  let price := (lines.filterMap (db.givenPrice strict row.id)).getLast?.getD row.columns.specialPriceRu
  { row with columns := columns.withSpecialPrice price }

/-- The step: the last line adds its price and, at least then, the defaults. -/
theorem lineRow_rowAfter (strict : Bool) (db : CollectionDb collate) (lines : List Bytes)
    (line : Bytes) (row : ItemRow) :
    db.lineRow strict line (db.rowAfter strict lines row) = db.rowAfter strict (lines ++ [line]) row := by
  have hgiven : ((lines ++ [line]).filterMap (db.givenPrice strict row.id)).getLast?
      = (db.givenPrice strict row.id line).or (lines.filterMap (db.givenPrice strict row.id)).getLast? := by
    rw [List.filterMap_append]
    cases hprice : db.givenPrice strict row.id line with
    | none => simp [hprice]
    | some price => simp [hprice]
  unfold rowAfter
  rw [hgiven, lineRow]
  by_cases hline : db.savedId strict line = some row.id
  · have hmem : ∃ l ∈ lines ++ [line], db.savedId strict l = some row.id := ⟨line, by simp, hline⟩
    simp only [if_pos hline, if_pos hmem, ItemColumns.defaults_withSpecialPrice,
      ItemColumns.withSpecialPrice_withSpecialPrice, ItemColumns.withSpecialPrice_specialPriceRu,
      givenPrice_getD hline]
    split
    · rw [ItemColumns.defaults_defaults]
    · rfl
  · have hmem : (∃ l ∈ lines ++ [line], db.savedId strict l = some row.id)
        ↔ ∃ l ∈ lines, db.savedId strict l = some row.id := by simp [hline]
    have hnone : db.givenPrice strict row.id line = none := if_neg fun h => hline h.1
    rw [if_neg hline, hnone, Option.none_or]
    simp only [hmem]

/-- The run: from any database, by adding lines at the end. -/
theorem runEach_spec (strict : Bool) (db : CollectionDb collate) (lines : List Bytes) :
    let db' := Batch.runEach (spriceLine strict) lines db
    db'.materials = db.materials ∧ db'.colors = db.colors ∧ db'.models = db.models
      ∧ db'.keys = db.keys ∧ db'.items.rows = db.items.rows.map (db.rowAfter strict lines) := by
  induction lines using List.reverseRecOn with
  | nil =>
      have hrow : db.rowAfter strict [] = id := funext fun row => by simp [rowAfter]
      exact ⟨rfl, rfl, rfl, rfl, by rw [hrow, List.map_id]; rfl⟩
  | append_singleton lines line ih =>
      obtain ⟨hmaterials, hcolors, hmodels, hkeys, hrows⟩ := ih
      obtain ⟨hmaterials', hcolors', hmodels', hkeys', hrows'⟩ :=
        spriceLine_spec strict (Batch.runEach (spriceLine strict) lines db) line
      rw [Batch.runEach_concat]
      refine ⟨hmaterials'.trans hmaterials, hcolors'.trans hcolors, hmodels'.trans hmodels,
        hkeys'.trans hkeys, ?_⟩
      rw [hrows', hrows, List.map_map]
      refine List.map_congr_left fun row _ => ?_
      rw [Function.comp_apply, ← lineRow_rowAfter, lineRow, lineRow, savedId_congr hcolors hkeys]

/-- A row that is named is one that is found. -/
theorem isSome_fetched_of_savedId {row : ItemRow} (hrow : row ∈ db.items.rows)
    (h : db.savedId strict line = some row.id) : row.columns.fetched.isSome := by
  obtain ⟨m, name, item, -, hitem, hid, -⟩ := savedId_eq_some h
  obtain ⟨color, row', columns, -, hrow', hfetched, rfl⟩ := byModelAndColor_spec hitem
  obtain rfl := List.inj_on_of_nodup_map db.items.primaryKey (rowOfPair_spec hrow').1 hrow hid
  rw [hfetched]
  rfl

theorem rowAfter_eq_iff {lines : List Bytes} {row : ItemRow} (hrow : row ∈ db.items.rows) :
    db.rowAfter strict lines row = row ↔ ((∃ line ∈ lines, db.savedId strict line = some row.id) →
      row.columns.fetched = some row.columns
        ∧ ∀ price ∈ (lines.filterMap (db.givenPrice strict row.id)).getLast?,
            price = row.columns.specialPriceRu) := by
  by_cases hnamed : ∃ line ∈ lines, db.savedId strict line = some row.id
  · obtain ⟨line, -, hline⟩ := id hnamed
    obtain ⟨columns, hfetched⟩ := Option.isSome_iff_exists.mp (isSome_fetched_of_savedId hrow hline)
    have hdefaults : row.columns.defaults = columns := by simp [ItemColumns.defaults, hfetched]
    have hprice := (ItemColumns.new_keeps hfetched).2
    have hkeep : db.rowAfter strict lines row = row ↔ columns.withSpecialPrice
        ((lines.filterMap (db.givenPrice strict row.id)).getLast?.getD row.columns.specialPriceRu)
          = row.columns := by
      rw [rowAfter, if_pos hnamed, hdefaults]
      exact ⟨congrArg ModelColor.columns, fun h => by rw [h]⟩
    rw [hkeep, forall_prop_of_true hnamed, hfetched, Option.some.injEq]
    cases hlast : (lines.filterMap (db.givenPrice strict row.id)).getLast? with
    | none =>
        rw [Option.getD_none, ← hprice]
        simp
    | some price =>
        rw [Option.getD_some]
        constructor
        · intro h
          have hgiven : price = row.columns.specialPriceRu := by rw [← h]; rfl
          rw [hgiven, ← hprice] at h
          simpa [hgiven] using h
        · rintro ⟨h, hgiven⟩
          rw [h, hgiven price rfl]
          rfl
  · have hnone : lines.filterMap (db.givenPrice strict row.id) = [] := by
      rw [List.filterMap_eq_nil_iff]
      exact fun line hline => if_neg fun hgiven => hnamed ⟨line, hline, hgiven.1⟩
    refine iff_of_true ?_ fun h => absurd h hnamed
    rw [rowAfter, if_neg hnamed, hnone]
    rfl

/-- The commands leave the database as it is exactly if the lines say nothing new. -/
theorem runEach_eq_iff (strict : Bool) (db : CollectionDb collate) (lines : List Bytes) :
    Batch.runEach (spriceLine strict) lines db = db ↔ db.Unchanged strict lines := by
  obtain ⟨hmaterials, hcolors, hmodels, -, hrows⟩ := runEach_spec strict db lines
  have hext : Batch.runEach (spriceLine strict) lines db = db
      ↔ db.items.rows.map (db.rowAfter strict lines) = db.items.rows := by
    constructor
    · intro h
      rw [← hrows, h]
    · intro h
      exact CollectionDb.ext hmaterials hcolors hmodels (ModelColorTable.eq_of_rows (hrows.trans h))
  rw [hext]
  conv_lhs => rhs; rw [← List.map_id db.items.rows]
  rw [List.map_inj_left]
  exact forall₂_congr fun row hrow => rowAfter_eq_iff hrow

end Lines

/-- There is no colour in the article `0`. -/
theorem spriceLine_zero (strict : Bool) (db : CollectionDb collate) :
    db.spriceLine strict (bytes "0") = none := rfl

/-- `scsv` is `sprice` for the lines that are true. -/
theorem scsv_eq_run (strict : Bool) (db : CollectionDb collate) (content : Bytes) :
    db.scsv strict content
      = Batch.run (spriceLine strict) ((nonEmptyLines content).filter (· ≠ bytes "0")) db := by
  have hstep : scsvStep strict = fun (db : CollectionDb collate) line =>
      if isTrue (some (Perl.chomp '\n'.toUInt8 line)) then
        db.spriceLine strict (Perl.chomp '\n'.toUInt8 line)
      else some db := funext fun db => funext fun line => scsvStep_eq strict db line
  have htrue : ∀ line : Bytes, isTrue (some line) = (decide (line ≠ []) && decide (line ≠ bytes "0")) := by
    intro line
    simp [isTrue]
  have hlines : (nonEmptyLines content).filter (· ≠ bytes "0")
      = ((Perl.readLines '\n'.toUInt8 content).reverse.map (Perl.chomp '\n'.toUInt8)).filter
          fun line => isTrue (some line) := by
    rw [nonEmptyLines, ← Perl.filter_readLines, List.filter_reverse, List.filter_filter,
      List.map_reverse, List.filter_reverse]
    congr 2
    funext line
    rw [htrue, Bool.and_comm]
  rw [scsv, hlines, Batch.run, Batch.run, List.foldlM_filter, List.foldlM_map, hstep]
  rfl

/-- Where `scsv` does not die it leaves the database that the commands
leave, each committed or rolled back on its own. -/
theorem scsv_eq_runEach {strict : Bool} {db db' : CollectionDb collate} {content : Bytes}
    (h : db.scsv strict content = some db') :
    Batch.runEach (spriceLine strict) (nonEmptyLines content) db = db' := by
  rw [scsv_eq_run] at h
  rw [← Batch.runEach_filter (fun line hline db => ?_) (nonEmptyLines content) db]
  · exact Batch.runEach_of_run h
  · have hzero : line = bytes "0" := by simpa using hline
    rw [hzero]
    exact spriceLine_zero strict db

/-- The file is one transaction, so it comes to the same as its lines one
by one exactly if no line but a `0` dies, or the lines say nothing new. -/
theorem scsv_eq_iff (strict : Bool) (db : CollectionDb collate) (content : Bytes) :
    (db.scsv strict content).getD db = Batch.runEach (spriceLine strict) (nonEmptyLines content) db
      ↔ (∀ line ∈ nonEmptyLines content, line ≠ bytes "0" → (db.savedId strict line).isSome)
        ∨ db.Unchanged strict (nonEmptyLines content) := by
  have hsome : (db.scsv strict content).isSome
      ↔ ∀ line ∈ nonEmptyLines content, line ≠ bytes "0" → (db.savedId strict line).isSome := by
    have hkeep : ∀ {db : CollectionDb collate} {line db'}, db.spriceLine strict line = some db' →
        ∀ other, (db'.savedId strict other).isSome ↔ (db.savedId strict other).isSome := by
      intro db line db' h other
      obtain ⟨-, hcolors, -, hkeys, -⟩ := spriceLine_spec strict db line
      rw [h, Option.getD_some] at hcolors hkeys
      rw [savedId_congr hcolors hkeys]
    rw [scsv_eq_run, Batch.isSome_run_iff isSome_spriceLine_iff hkeep]
    simp only [List.mem_filter, decide_eq_true_eq, and_imp]
  rw [← hsome, ← runEach_eq_iff]
  cases hscsv : db.scsv strict content with
  | none =>
      rw [Option.getD_none]
      exact ⟨fun h => Or.inr h.symm, fun h => (h.resolve_left (by simp)).symm⟩
  | some db' =>
      rw [Option.getD_some]
      exact iff_of_true (scsv_eq_runEach hscsv).symm (Or.inl rfl)

/-- For each price the commands leave nothing stale exactly if the price is
not ignored, and a file comes to the same as its lines one by one exactly if
no line but a `0` dies, or they leave the table as it is. -/
theorem special_price_iff (collate : Bytes → Bytes) (strict : Bool) :
    (∀ price, NeverStale strict price (SpriceRuns strict price : CommandRuns collate)
        ↔ ¬ Ignored price)
    ∧ (∀ price, '\n'.toUInt8 ∉ price →
        (NeverStale strict price (ScsvRuns strict price : CommandRuns collate) ↔ ¬ Ignored price))
    ∧ ∀ (db : CollectionDb collate) content,
        (db.scsv strict content).getD db
            = Batch.runEach (spriceLine strict) (nonEmptyLines content) db
          ↔ (∀ line ∈ nonEmptyLines content, line ≠ bytes "0" → (db.savedId strict line).isSome)
            ∨ db.Unchanged strict (nonEmptyLines content) :=
  ⟨neverStale_sprice_iff strict, fun _ hline => neverStale_scsv_iff strict hline, scsv_eq_iff strict⟩

/-- `item sprice 7-red 0.0` on an item with the special price 100.00 leaves
it there, and so does a line that ends in a carriage return behind its `-`.
A line for a colour that is not there undoes the other one of its file, but
not the command for it. -/
theorem special_price_stale :
    Ignored (bytes "0.0") ∧ Ignored (bytes "abc")
    ∧ ((pricedDb (some 10000) : CollectionDb id).sprice true (bytes "7-red")
        (some (bytes "0.0"))).map (·.savedPrice (bytes "7-red")) = some (some (some 10000))
    ∧ ((pricedDb (some 10000) : CollectionDb id).sprice true (bytes "7-red")
        (some (bytes "-"))).map (·.savedPrice (bytes "7-red")) = some (some none)
    ∧ ((pricedDb (some 10000) : CollectionDb id).scsv true (bytes "7-red;-\r\n")).map
        (·.savedPrice (bytes "7-red")) = some (some (some 10000))
    ∧ (((pricedDb (some 10000) : CollectionDb id).scsv true (bytes "7-nope;5\n7-red;12.5\n")).getD
        (pricedDb (some 10000))).savedPrice (bytes "7-red") = some (some 10000)
    ∧ (Batch.runEach (spriceLine true) (nonEmptyLines (bytes "7-nope;5\n7-red;12.5\n"))
        (pricedDb (some 10000) : CollectionDb id)).savedPrice (bytes "7-red") = some (some 1250)
    ∧ ¬ NeverStale true (bytes "0.0") (SpriceRuns true (bytes "0.0") : CommandRuns id) := by
  have hignored : Ignored (bytes "0.0") := by decide +kernel
  refine ⟨hignored, by decide +kernel, by decide +kernel, by decide +kernel, by decide +kernel,
    by decide +kernel, by decide +kernel, fun h => ?_⟩
  exact (neverStale_sprice_iff true (bytes "0.0")).mp h hignored

end Runs

end CollectionDb

end Simurga
