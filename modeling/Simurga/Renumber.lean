import Simurga.Admin

/-!
# Renumbering a model

`Simurga::Model::id` followed by `save`. The rows and the directories are
to go from one number to another together, or not at all (`Renumbers`).
But `save` looks for a row with the new number, so it never changes the
number of one: the old row stays, and its items with it
(`old_mem_saveModel`), while `_rename_all` takes their directories away.
-/

namespace Simurga

variable {Content : Type}

/-! ## Directories -/

/-- An entry of `pub/model`. -/
inductive Entry (Content : Type) where
  | file (content : Content)
  | directory (images : List (Bytes × Content))

/-- `pub/model`. -/
abbrev PubModel (Content : Type) := Bytes → Option (Entry Content)

/-- `-d "$root/$item"`. -/
def isDirectory (fs : PubModel Content) (item : Bytes) : Bool :=
  match fs item with
  | some (.directory _) => true
  | _ => false

/-- What a `save` meets: the statement may fail, `readdir` has an order, and
a `rename` may be refused. -/
structure SaveWorld where
  statementFails : Bool
  items : List Bytes
  refused : Bytes → Bytes → Bool

/-- `rename` of a directory: the new name must be free, or one of an empty
directory. -/
def rename (world : SaveWorld) (fs : PubModel Content) (src dst : Bytes) : Option (PubModel Content) :=
  if world.refused src dst then none
  else if src = dst then some fs
  else
    match fs src, fs dst with
    | some entry, none | some entry, some (.directory []) =>
        some (Function.update (Function.update fs src none) dst (some entry))
    | _, _ => none

/-- The tests of `_rename_all` on an item of `readdir`. -/
def isRenamed (fs : PubModel Content) (oldId item : Bytes) : Bool :=
  item.head? ≠ some '.'.toUInt8 && isDirectory fs item && (oldId ++ bytes "-").isPrefixOf item

/-- `substr($new_name, 0, length($old_id)) = $new_id`. -/
def newName (oldId newId item : Bytes) : Bytes := newId ++ item.drop oldId.length

/-- The loop of `_rename_all`, and whether it comes to its end. -/
def renameAll (world : SaveWorld) (oldId newId : Bytes) :
    List Bytes → PubModel Content → PubModel Content × Bool
  | [], fs => (fs, true)
  | item :: items, fs =>
      if isRenamed fs oldId item then
        match rename world fs item (newName oldId newId item) with
        | some fs => renameAll world oldId newId items fs
        | none => (fs, false)
      else renameAll world oldId newId items fs

/-! ## The object -/

/-- A `Simurga::Model`; `oldId` is `_old_id`. -/
structure ModelObject where
  data : Model
  oldId : Option UInt32
deriving DecidableEq

namespace ModelObject

/-- `Simurga::Model::id` with an argument. -/
def setId (obj : ModelObject) (newId : UInt32) : ModelObject :=
  if newId = 0 then obj
  else {
    data := { obj.data with id := newId }
    oldId := if obj.data.id = 0 then obj.oldId else obj.oldId.or (some obj.data.id) }

/-- How a `save` ends, and what is stored then; after a `die` the rows are
those of the last commit. -/
structure Saved (collate : Bytes → Bytes) (Content : Type) where
  dies : Bool
  db : CollectionDb collate
  fs : PubModel Content

variable {collate : Bytes → Bytes}

/-- `Simurga::Model::save`. -/
def save (world : SaveWorld) (db : CollectionDb collate) (fs : PubModel Content) (obj : ModelObject) :
    Saved collate Content :=
  if world.statementFails then { dies := true, db := db, fs := fs }
  else
    match obj.oldId with
    | none => { dies := false, db := db.saveModel obj.data, fs := fs }
    | some oldId =>
        match renameAll world (toString oldId) (toString obj.data.id) world.items fs with
        | (fs, true) => { dies := false, db := db.saveModel obj.data, fs := fs }
        | (fs, false) => { dies := true, db := db, fs := fs }

end ModelObject

/-- `Simurga::Model::by_id`. -/
def CollectionDb.modelById {collate : Bytes → Bytes} (db : CollectionDb collate) (id : UInt32) :
    Option ModelObject := do
  let row ← db.models.find? fun m => m.id = id
  let data ← row.new
  pure { data := data, oldId := none }

/-! ## What it should do -/

section Law

variable {collate : Bytes → Bytes}

/-- The model has the new number, in its row and in the rows that refer to
it; the images of each item are where the item says; nothing else changed. -/
structure Renumbered (oldId newId : UInt32) (db : CollectionDb collate) (fs : PubModel Content)
    (db' : CollectionDb collate) (fs' : PubModel Content) : Prop where
  gone : oldId ∉ db'.models.map Model.id
  refers : ∀ r ∈ db.items.rows, r.columns.modelId = oldId →
    ∃ r' ∈ db'.items.rows, r'.id = r.id ∧ r'.columns.modelId = newId
  images : ∀ r ∈ db.items.rows, ∀ r' ∈ db'.items.rows, r'.id = r.id →
    ∀ dir dir', db.directory r = some dir → db'.directory r' = some dir' → fs' dir' = fs dir
  models : ∀ m ∈ db.models, m.id ≠ oldId → m ∈ db'.models
  items : ∀ r ∈ db.items.rows, r.columns.modelId ≠ oldId → r ∈ db'.items.rows
  directories : ∀ item, ¬ (toString oldId ++ bytes "-").isPrefixOf item →
    ¬ (toString newId ++ bytes "-").isPrefixOf item → fs' item = fs item

/-- If the save returns the model is renumbered; if it dies, or the number
belongs to another model, all is as it was. -/
def Renumbers (oldId newId : UInt32) (db : CollectionDb collate) (fs : PubModel Content)
    (saved : ModelObject.Saved collate Content) : Prop :=
  if saved.dies = true ∨ (newId ≠ oldId ∧ newId ∈ db.models.map Model.id) then
    saved.db = db ∧ saved.fs = fs
  else Renumbered oldId newId db fs saved.db saved.fs

/-- What keeps a directory where it is: the system, or what has the new name. -/
def Blocked (world : SaveWorld) (fs : PubModel Content) (src dst : Bytes) : Prop :=
  world.refused src dst = true
    ∨ (src ≠ dst ∧ ((∃ content, fs dst = some (.file content))
      ∨ ∃ image images, fs dst = some (.directory (image :: images))))

/-- A `rename` to the name an item has does nothing, unless it is refused. -/
def isMoved (world : SaveWorld) (fs : PubModel Content) (oldId newId item : Bytes) : Bool :=
  isRenamed fs oldId item
    && (item ≠ newName oldId newId item || world.refused item (newName oldId newId item))

/-- The first directory that `_rename_all` moves or dies at. There is none
with the number 0: `id(0)` only reads, and an object with the number 0
remembers no old number. -/
def firstMoved (world : SaveWorld) (fs : PubModel Content) (oldId newId : UInt32) : Option Bytes :=
  if oldId = 0 ∨ newId = 0 then none
  else world.items.find? (isMoved world fs (toString oldId) (toString newId))

end Law

/-! ## The directories -/

section Directories

variable {world : SaveWorld} {fs fs' : PubModel Content}

theorem rename_eq_none_iff {src dst : Bytes} (hdir : isDirectory fs src = true) :
    rename world fs src dst = none ↔ Blocked world fs src dst := by
  obtain ⟨images, hsrc⟩ : ∃ images, fs src = some (.directory images) := by
    unfold isDirectory at hdir
    split at hdir
    · rename_i images hsrc
      exact ⟨images, hsrc⟩
    · cases hdir
  unfold rename Blocked
  by_cases hrefused : world.refused src dst = true
  · simp [hrefused]
  · rw [if_neg hrefused]
    by_cases hne : src = dst
    · subst hne
      simp [hrefused]
    · rw [if_neg hne, hsrc]
      cases hdst : fs dst with
      | none => simp [hrefused]
      | some entry =>
          cases entry with
          | file content => simp [hne]
          | directory images' => cases images' <;> simp [hrefused, hne]

theorem rename_gone {src dst : Bytes} (hne : src ≠ dst) (h : rename world fs src dst = some fs') :
    fs' src = none ∧ ∀ name, name ≠ dst → fs name = none → fs' name = none := by
  unfold rename at h
  rw [if_neg hne] at h
  split at h
  · cases h
  · have hupdate : ∀ entry : Entry Content,
        Function.update (Function.update fs src none) dst (some entry) src = none
        ∧ ∀ name, name ≠ dst → fs name = none →
          Function.update (Function.update fs src none) dst (some entry) name = none := by
      intro entry
      refine ⟨by rw [Function.update_of_ne hne, Function.update_self], fun name hname hnone => ?_⟩
      rw [Function.update_of_ne hname]
      by_cases hsrc : name = src
      · rw [hsrc, Function.update_self]
      · rw [Function.update_of_ne hsrc, hnone]
    split at h
    · cases h
      exact hupdate _
    · cases h
      exact hupdate _
    · cases h

/-- A new name is none of the old ones. -/
theorem newName_ne {oldId newId : UInt32} (hne : newId ≠ oldId) {item item' : Bytes}
    (hitem : toString oldId ++ bytes "-" <+: item) (hitem' : toString oldId ++ bytes "-" <+: item') :
    item' ≠ newName (toString oldId) (toString newId) item := by
  obtain ⟨rest, rfl⟩ := hitem
  obtain ⟨rest', rfl⟩ := hitem'
  intro h
  rw [newName, List.append_assoc, List.append_assoc, List.drop_left, ← List.append_assoc,
    ← List.append_assoc] at h
  exact hne (modelId_inj h).1.symm

theorem isRenamed_spec {oldId item : Bytes} (h : isRenamed fs oldId item = true) :
    isDirectory fs item = true ∧ oldId ++ bytes "-" <+: item := by
  unfold isRenamed at h
  simp only [Bool.and_eq_true] at h
  exact ⟨h.1.2, List.isPrefixOf_iff_prefix.mp h.2⟩

/-- An old name that is gone stays gone. -/
theorem renameAll_gone (world : SaveWorld) {oldId newId : UInt32} (hne : newId ≠ oldId) {item : Bytes}
    (hitem : toString oldId ++ bytes "-" <+: item) (items : List Bytes) (hgone : fs item = none) :
    (renameAll world (toString oldId) (toString newId) items fs).1 item = none := by
  induction items generalizing fs with
  | nil => exact hgone
  | cons item' items ih =>
      rw [renameAll]
      split
      · rename_i hrenamed
        have hprefix := (isRenamed_spec hrenamed).2
        split
        · rename_i fs₁ hrename
          exact ih ((rename_gone (newName_ne hne hprefix hprefix) hrename).2 item
            (newName_ne hne hprefix hitem) hgone)
        · exact hgone
      · exact ih hgone

theorem isMoved_spec {oldId newId item : Bytes} (h : isMoved world fs oldId newId item = true) :
    isRenamed fs oldId item = true
      ∧ (item ≠ newName oldId newId item ∨ world.refused item (newName oldId newId item) = true) := by
  unfold isMoved at h
  simpa using h

/-- The loop goes as the first rename that is not idle goes. -/
theorem renameAll_cases (world : SaveWorld) (oldId newId : Bytes) (items : List Bytes)
    (fs : PubModel Content) :
    (items.find? (isMoved world fs oldId newId) = none
      ∧ renameAll world oldId newId items fs = (fs, true))
    ∨ ∃ item, items.find? (isMoved world fs oldId newId) = some item
      ∧ ((rename world fs item (newName oldId newId item) = none
          ∧ renameAll world oldId newId items fs = (fs, false))
        ∨ ∃ fs₁ rest, rename world fs item (newName oldId newId item) = some fs₁
          ∧ renameAll world oldId newId items fs = renameAll world oldId newId rest fs₁) := by
  induction items with
  | nil => exact Or.inl ⟨rfl, rfl⟩
  | cons item items ih =>
      rw [renameAll]
      by_cases hmoved : isMoved world fs oldId newId item = true
      · rw [List.find?_cons_of_pos hmoved, if_pos (isMoved_spec hmoved).1]
        refine Or.inr ⟨item, rfl, ?_⟩
        cases hrename : rename world fs item (newName oldId newId item) with
        | none => exact Or.inl ⟨rfl, rfl⟩
        | some fs₁ => exact Or.inr ⟨fs₁, items, rfl, rfl⟩
      · rw [List.find?_cons_of_neg hmoved]
        split
        · rename_i hrenamed
          have hidle : rename world fs item (newName oldId newId item) = some fs := by
            simp only [isMoved, hrenamed, Bool.true_and, Bool.or_eq_true, decide_eq_true_eq, not_or,
              Decidable.not_not] at hmoved
            rw [rename, if_neg hmoved.2, if_pos hmoved.1]
          rw [hidle]
          exact ih
        · exact ih

/-- A save that moves a directory leaves another `pub/model`. -/
theorem renameAll_eq_iff (world : SaveWorld) {oldId newId : UInt32} {item : Bytes} {items : List Bytes}
    (hfirst : items.find? (isMoved world fs (toString oldId) (toString newId)) = some item) :
    (renameAll world (toString oldId) (toString newId) items fs).1 = fs
      ↔ rename world fs item (newName (toString oldId) (toString newId) item) = none := by
  obtain ⟨hrenamed, hmoved⟩ := isMoved_spec (List.find?_some hfirst)
  obtain ⟨hdir, hprefix⟩ := isRenamed_spec hrenamed
  rcases renameAll_cases world (toString oldId) (toString newId) items fs with
    ⟨hnone, -⟩ | ⟨item', hfirst', h⟩
  · rw [hfirst] at hnone
    cases hnone
  · obtain rfl : item = item' := Option.some.inj (hfirst.symm.trans hfirst')
    rcases h with ⟨hrename, hall⟩ | ⟨fs₁, rest, hrename, hall⟩
    · simp [hrename, hall]
    · rw [hall, hrename]
      refine iff_of_false (fun heq => ?_) (by simp)
      have hallowed : world.refused item (newName (toString oldId) (toString newId) item) ≠ true :=
        fun hrefused => by
          rw [rename, if_pos hrefused] at hrename
          cases hrename
      have hname := hmoved.resolve_right hallowed
      have hne : newId ≠ oldId := fun h => by
        obtain ⟨suffix, rfl⟩ := hprefix
        rw [newName, h, List.append_assoc, List.drop_left] at hname
        exact hname rfl
      have hgone := renameAll_gone world hne hprefix rest (rename_gone hname hrename).1
      rw [heq] at hgone
      unfold isDirectory at hdir
      rw [hgone] at hdir
      cases hdir

end Directories

/-! ## The rows -/

section Rows

variable {collate : Bytes → Bytes} {db : CollectionDb collate} {fs fs' : PubModel Content}

/-- No `save` takes a number away. -/
theorem old_mem_saveModel {id : UInt32} (h : id ∈ db.models.map Model.id) (row : Model) :
    id ∈ (db.saveModel row).models.map Model.id := by
  unfold CollectionDb.saveModel
  split
  · dsimp only
    rw [CollectionDb.map_id_setModel]
    exact h
  · exact Table.mem_concat h row

/-- An update changes nothing if and only if the row is there. -/
theorem saveModel_eq_iff {row : Model} (h : row.id ∈ db.models.map Model.id) :
    db.saveModel row = db ↔ row ∈ db.models := by
  have hmodels : (db.saveModel row).models = db.models.map (CollectionDb.setModel row) := by
    rw [CollectionDb.saveModel, dif_pos h]
  constructor
  · intro heq
    rw [heq] at hmodels
    obtain ⟨m, hm, hid⟩ := List.mem_map.mp h
    rw [hmodels]
    refine List.mem_map.mpr ⟨m, hm, ?_⟩
    rw [CollectionDb.setModel, if_pos hid]
  · intro hrow
    have hself : db.models.map (CollectionDb.setModel row) = db.models := by
      refine (List.map_congr_left fun m hm => ?_).trans (List.map_id _)
      rw [CollectionDb.setModel]
      split
      · rename_i hid
        exact (List.inj_on_of_nodup_map db.modelIds hm hrow hid).symm
      · rfl
    have hfields : (db.saveModel row).materials = db.materials
        ∧ (db.saveModel row).colors = db.colors ∧ (db.saveModel row).items = db.items := by
      rw [CollectionDb.saveModel, dif_pos h]
      exact ⟨rfl, rfl, rfl⟩
    exact CollectionDb.ext hfields.1 hfields.2.1 (hmodels.trans hself) hfields.2.2

theorem id_modelNew {data row : Model} (h : data.new = some row) : row.id = data.id := by
  unfold Model.new at h
  rw [Option.ite_none_right_eq_some] at h
  obtain ⟨-, h⟩ := h
  cases h
  rfl

theorem modelById_spec {id : UInt32} {obj : ModelObject} (h : db.modelById id = some obj) :
    obj.data.id = id ∧ obj.oldId = none ∧ id ∈ db.models.map Model.id := by
  obtain ⟨row, hfind, h⟩ := Option.bind_eq_some_iff.mp h
  obtain ⟨data, hnew, h⟩ := Option.bind_eq_some_iff.mp h
  obtain ⟨hmem, hid⟩ := Table.mem_of_find? hfind
  cases h
  exact ⟨(id_modelNew hnew).trans hid, rfl, List.mem_map.mpr ⟨row, hmem, hid⟩⟩

theorem renumbers_died_iff (oldId newId : UInt32) :
    Renumbers oldId newId db fs { dies := true, db := db, fs := fs' } ↔ fs' = fs := by
  simp [Renumbers]

theorem renumbers_returned_iff {oldId newId : UInt32}
    (hold : oldId ∈ db.models.map Model.id) {row : Model}
    (hrow : newId ∈ db.models.map Model.id → row.id ∈ db.models.map Model.id) :
    Renumbers oldId newId db fs { dies := false, db := db.saveModel row, fs := fs' }
      ↔ (newId ≠ oldId ∧ newId ∈ db.models.map Model.id ∧ row ∈ db.models) ∧ fs' = fs := by
  unfold Renumbers
  by_cases hnew : newId ≠ oldId ∧ newId ∈ db.models.map Model.id
  · rw [if_pos (Or.inr hnew), saveModel_eq_iff (hrow hnew.2)]
    simp [hnew]
  · rw [if_neg (by simpa using hnew)]
    constructor
    · exact fun h => absurd (old_mem_saveModel hold row) h.gone
    · exact fun h => absurd ⟨h.1.1, h.1.2.1⟩ hnew

end Rows

theorem setId_spec {oldId : UInt32} (newId : UInt32) {obj : ModelObject} (hid : obj.data.id = oldId)
    (hnone : obj.oldId = none) :
    (obj.setId newId).oldId = (if oldId = 0 ∨ newId = 0 then none else some oldId)
      ∧ (obj.setId newId).data.id = if newId = 0 then oldId else newId := by
  unfold ModelObject.setId
  by_cases hzero : newId = 0
  · simp [hzero, hid, hnone]
  · by_cases hold : oldId = 0 <;> simp [hzero, hid, hnone, hold]

/-- A model is renumbered, or left as it was, only if the save dies before it
has moved a directory, or if the number belongs to another model with the
very titles and there is no directory to move. A save that returns never
renumbers. -/
theorem renumbers_iff {collate : Bytes → Bytes} (world : SaveWorld) (db : CollectionDb collate)
    (fs : PubModel Content) {oldId : UInt32} (newId : UInt32) {obj : ModelObject}
    (hobj : db.modelById oldId = some obj) :
    Renumbers oldId newId db fs ((obj.setId newId).save world db fs) ↔
      world.statementFails = true
      ∨ (∃ item, firstMoved world fs oldId newId = some item
          ∧ Blocked world fs item (newName (toString oldId) (toString newId) item))
      ∨ (firstMoved world fs oldId newId = none ∧ newId ≠ oldId
          ∧ newId ∈ db.models.map Model.id ∧ (obj.setId newId).data ∈ db.models) := by
  obtain ⟨hid, hnone, hold⟩ := modelById_spec hobj
  obtain ⟨hsetOld, hsetId⟩ := setId_spec newId hid hnone
  have hrow : newId ∈ db.models.map Model.id →
      (obj.setId newId).data.id ∈ db.models.map Model.id := fun hnew => by
    rw [hsetId]
    split
    · exact hold
    · exact hnew
  unfold ModelObject.save firstMoved
  cases hfails : world.statementFails with
  | true => simp [renumbers_died_iff]
  | false =>
      by_cases hzero : oldId = 0 ∨ newId = 0
      · rw [hsetOld, if_pos hzero, if_pos hzero]
        simp only [Bool.false_eq_true, if_false]
        rw [renumbers_returned_iff hold hrow]
        simp
      · obtain ⟨-, hnewId⟩ := not_or.mp hzero
        rw [if_neg hnewId] at hsetId
        rw [hsetOld, if_neg hzero, if_neg hzero]
        simp only [hsetId, Bool.false_eq_true, if_false, false_or]
        rcases renameAll_cases world (toString oldId) (toString newId) world.items fs with
          ⟨hnone, hall⟩ | ⟨item, hsome, hloop⟩
        · rw [hall, hnone]
          dsimp only
          rw [renumbers_returned_iff hold hrow]
          simp
        · obtain ⟨hdir, -⟩ := isRenamed_spec (isMoved_spec (List.find?_some hsome)).1
          have hrename := renameAll_eq_iff world hsome
          have hkept := hrename.trans (rename_eq_none_iff hdir)
          rw [hsome]
          simp only [Option.some.injEq, exists_eq_left', reduceCtorEq, false_and, or_false]
          rw [← hkept]
          generalize renameAll world (toString oldId) (toString newId) world.items fs = r at *
          obtain ⟨fs', ended⟩ := r
          cases ended with
          | false => exact renumbers_died_iff oldId newId
          | true =>
              rw [renumbers_returned_iff hold hrow]
              have hchanged : fs' ≠ fs := fun heq => by
                rcases hloop with ⟨-, hall⟩ | ⟨fs₁, rest, hsome₁, -⟩
                · cases hall
                · rw [hrename.mp heq] at hsome₁
                  cases hsome₁
              exact iff_of_false (fun h => hchanged h.2) hchanged

/-! ## One model -/

/-- Model 1 with one item. -/
def renumberDb : CollectionDb id where
  materials := []
  colors := [{ id := 1, name := bytes "red", code := bytes "ff0000", descRu := [], descEn := [] }]
  models := [{ sampleModel with id := 1 }]
  items := ⟨[⟨1, { sampleItem 100 with modelId := 1, numImages := 1 }⟩], by decide⟩
  materialIds := by decide
  materialNames := by decide
  colorIds := by decide
  colorNames := by decide
  modelIds := by decide
  modelFk := by decide
  colorFk := by decide
  materialFk := by simp [ModelColorTable.contents, sampleItem]

/-- Its object. -/
def sampleModelObject : ModelObject where
  data :=
    { id := 1, shortTitleRu := some [], shortTitleEn := some [], titleRu := bytes "Coat",
      titleEn := bytes "Coat" }
  oldId := none

/-- Its directory. -/
def sampleFs : PubModel ℕ := fun item =>
  if item = bytes "1-red" then some (.directory [(imageName .big 0, 10)]) else none

def sampleWorld : SaveWorld where
  statementFails := false
  items := [bytes ".", bytes "..", bytes "1-red"]
  refused := fun _ _ => false

/-- A save whose first rename is refused. -/
theorem renumbers_iff_sample :
    Renumbers 1 2 renumberDb sampleFs
      ((sampleModelObject.setId 2).save { sampleWorld with refused := fun _ _ => true } renumberDb sampleFs) :=
  (renumbers_iff { sampleWorld with refused := fun _ _ => true } renumberDb sampleFs 2
    (show renumberDb.modelById 1 = some sampleModelObject by decide +kernel)).mpr
    (Or.inr (Or.inl ⟨bytes "1-red", by decide +kernel, Or.inl rfl⟩))

/-- A save that returns: the old model and its item are still there, their
images are gone. -/
theorem renumber_old_stays :
    renumberDb.modelById 1 = some sampleModelObject
      ∧ ((sampleModelObject.setId 2).save sampleWorld renumberDb sampleFs).dies = false
      ∧ ((sampleModelObject.setId 2).save sampleWorld renumberDb sampleFs).db.models.map Model.id = [1, 2]
      ∧ ((sampleModelObject.setId 2).save sampleWorld renumberDb sampleFs).db.pairs = [(1, 1)]
      ∧ (((sampleModelObject.setId 2).save sampleWorld renumberDb sampleFs).fs (bytes "1-red")).isNone
      ∧ ¬ Renumbers 1 2 renumberDb sampleFs
          ((sampleModelObject.setId 2).save sampleWorld renumberDb sampleFs) := by
  refine ⟨by decide +kernel, by decide +kernel, by decide +kernel, by decide +kernel,
    by decide +kernel, fun h => ?_⟩
  unfold Renumbers at h
  rw [if_neg (by decide +kernel)] at h
  exact absurd h.gone (by decide +kernel)

end Simurga
