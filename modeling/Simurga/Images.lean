import Simurga.Pages
import Simurga.Lib.Numbered
import Mathlib.Data.List.InsertIdx
import Mathlib.Data.Option.Basic

/-!
# The images of an item

`add_image` and `remove_image` (`Simurga.pm`) as the lists of commands they
give to the file system and the database, for an item whose directory no
other item has. A directory that is right after one operation is right
after the next (`represents_add`, `represents_remove`), so the directory
and `num_images` are a list of photos (`images_refine`).
-/

namespace Simurga

variable {Photo Content : Type}

/-- The file name that `_big` and `_preview` end in. -/
def imageName (imageType : ImageType) (num : ℕ) : Bytes :=
  (match imageType with
    | .big => bytes "big_"
    | .preview => bytes "preview_") ++ Decimal.digits num ++ bytes ".jpg"

/-- `pub/model/<model_id>-<color>`. -/
abbrev Directory (Content : Type) := Bytes → Option Content

/-- What the operations ask for. `convert` reads a photo, which is not in
the directory, and writes the image of one type and number. -/
inductive Command (Photo : Type) where
  | mkdir
  | convert (imageType : ImageType) (photo : Photo) (num : ℕ)
  | unlink (file : Bytes)
  | rename (src dst : Bytes)
  | save (numImages : ℕ)

/-- `add_image`. -/
def addImage (numImages : ℕ) (photo : Photo) : List (Command Photo) :=
  [.mkdir, .convert .big photo numImages, .convert .preview photo numImages, .save (numImages + 1)]

/-- The loop of `remove_image` over the values of `$i`. -/
def renameImages : List ℕ → Bytes → Bytes → List (Command Photo)
  | [], _, _ => []
  | i :: is, big, preview =>
      let nextBig := imageName .big (i + 1)
      let nextPreview := imageName .preview (i + 1)
      .rename nextBig big :: .rename nextPreview preview :: renameImages is nextBig nextPreview

/-- What `remove_image` does to the files. -/
def removeFiles (num count : ℕ) : List (Command Photo) :=
  let big := imageName .big num
  let preview := imageName .preview num
  .unlink big :: .unlink preview
    :: renameImages (List.range' num (count - 1 - num)) big preview

/-- `remove_image`; `none` is `die "Invalid image number"`. -/
def removeImage (num numImages : ℕ) : Option (List (Command Photo)) :=
  if numImages ≤ num then none
  else some (removeFiles num numImages ++ [.save (numImages - 1)])

/-- The row and the directory of an item. -/
structure ItemImages (Content : Type) where
  numImages : ℕ
  files : Directory Content

/-- A command that succeeds; `converted` is what `convert` writes. A
directory is there with its first file, so that `mkdir` has nothing to do. -/
def exec (converted : ImageType → Photo → Content) (item : ItemImages Content) :
    Command Photo → ItemImages Content
  | .mkdir => item
  | .convert imageType photo num =>
      { item with
        files := Function.update item.files (imageName imageType num)
          (some (converted imageType photo)) }
  | .unlink file => { item with files := Function.update item.files file none }
  | .rename src dst => { item with files := Numbered.move item.files src dst }
  | .save numImages => { item with numImages := numImages }

def execAll (converted : ImageType → Photo → Content) :
    ItemImages Content → List (Command Photo) → ItemImages Content :=
  List.foldl (exec converted)

/-- A call of one of the two methods. -/
inductive ImageCall (Photo : Type) where
  | add (photo : Photo)
  | remove (num : ℕ)

def ImageCall.commands (numImages : ℕ) : ImageCall Photo → Option (List (Command Photo))
  | .add photo => some (addImage numImages photo)
  | .remove num => removeImage num numImages

/-- An operation all of whose commands succeed. -/
def perform (converted : ImageType → Photo → Content) (item : ItemImages Content)
    (op : ImageCall Photo) : Option (ItemImages Content) :=
  (op.commands item.numImages).map (execAll converted item)

/-! ## File names -/

theorem imageName_inj {t t' : ImageType} {num num' : ℕ} (h : imageName t num = imageName t' num') :
    t = t' ∧ num = num' := by
  have htype : t = t' := by
    cases t <;> cases t' <;> first | rfl | cases h
  subst htype
  refine ⟨rfl, ?_⟩
  have hdigits : Decimal.digits num = Decimal.digits num' :=
    List.append_cancel_left (List.append_cancel_right h)
  rw [← Decimal.value_digits num, hdigits, Decimal.value_digits]

theorem imageName_injective (t : ImageType) : Function.Injective (imageName t) :=
  fun _ _ h => (imageName_inj h).2

theorem big_ne_preview (num num' : ℕ) : imageName .big num ≠ imageName .preview num' := fun h => by
  cases (imageName_inj h).1

theorem bigFile_eq (data : Bytes) (modelId : UInt32) (colorName : Bytes) (num : UInt32) :
    bigFile data modelId colorName num = data ++ bytes "/pub/model/" ++ toString modelId
      ++ bytes "-" ++ colorName ++ bytes "/" ++ imageName .big num.toNat := by
  rw [bigFile, imageName, show bytes "/big_" = bytes "/" ++ bytes "big_" from rfl]
  simp only [List.append_assoc, toString]

theorem previewFile_eq (data : Bytes) (modelId : UInt32) (colorName : Bytes) (num : UInt32) :
    previewFile data modelId colorName num = data ++ bytes "/pub/model/" ++ toString modelId
      ++ bytes "-" ++ colorName ++ bytes "/" ++ imageName .preview num.toNat := by
  rw [previewFile, imageName, show bytes "/preview_" = bytes "/" ++ bytes "preview_" from rfl]
  simp only [List.append_assoc, toString]

/-- The page names the same files. -/
theorem imagePath_eq (t : ImageType) (num : UInt32) : imagePath t num = imageName t num.toNat := rfl

/-! ## What the operations do to the files -/

section Effect

variable (converted : ImageType → Photo → Content)

@[simp] theorem execAll_nil (item : ItemImages Content) : execAll converted item [] = item := rfl

@[simp] theorem execAll_cons (item : ItemImages Content) (c : Command Photo)
    (cs : List (Command Photo)) :
    execAll converted item (c :: cs) = execAll converted (exec converted item c) cs := rfl

theorem execAll_append (item : ItemImages Content) (cs cs' : List (Command Photo)) :
    execAll converted item (cs ++ cs') = execAll converted (execAll converted item cs) cs' :=
  List.foldl_append

/-- The files of both types are the sequences `f` on the way from `i` to `j`. -/
def Shifting (files : Directory Content) (f : ImageType → ℕ → Option Content) (i j : ℕ) : Prop :=
  ∀ t, Numbered.Gap (imageName t) files (f t) i j

/-- One turn of the loop. -/
theorem shifting_rename {files : Directory Content} {f : ImageType → ℕ → Option Content} {i j : ℕ}
    (hij : i ≤ j) (h : Shifting files f i j) :
    Shifting (Numbered.move (Numbered.move files (imageName .big (j + 1)) (imageName .big j))
      (imageName .preview (j + 1)) (imageName .preview j)) f i (j + 1) := by
  intro t
  cases t with
  | big =>
      refine ((h .big).move (imageName_injective .big) hij).congr fun k => ?_
      exact Numbered.move_of_ne (big_ne_preview _ _) (big_ne_preview _ _)
  | preview =>
      refine Numbered.Gap.move (imageName_injective .preview) hij ((h .preview).congr fun k => ?_)
      exact Numbered.move_of_ne (big_ne_preview _ _).symm (big_ne_preview _ _).symm

/-- The loop: the hole goes from `j` to the end, and the row stays. -/
theorem execAll_renameImages {f : ImageType → ℕ → Option Content} {i : ℕ} (n : ℕ) :
    ∀ {j : ℕ} (item : ItemImages Content), i ≤ j → Shifting item.files f i j →
      (execAll converted item
          (renameImages (List.range' j n) (imageName .big j) (imageName .preview j))).numImages
          = item.numImages
        ∧ Shifting (execAll converted item
            (renameImages (List.range' j n) (imageName .big j) (imageName .preview j))).files
          f i (j + n) := by
  induction n with
  | zero => exact fun _ _ h => ⟨rfl, h⟩
  | succ n ih =>
      intro j item hij h
      rw [List.range'_succ, renameImages, execAll_cons, execAll_cons,
        show j + (n + 1) = j + 1 + n by omega]
      exact ih (exec converted (exec converted item _) _) (by omega) (shifting_rename hij h)

/-- One file of each type is written or taken away. -/
theorem holds_update {files : Directory Content} {f : ImageType → ℕ → Option Content}
    (h : ∀ t, Numbered.Holds (imageName t) files (f t)) (n : ℕ) (v : ImageType → Option Content)
    (t : ImageType) :
    Numbered.Holds (imageName t)
      (Function.update (Function.update files (imageName .big n) (v .big))
        (imageName .preview n) (v .preview)) (Function.update (f t) n (v t)) := by
  cases t with
  | big =>
      refine ((h .big).update (imageName_injective .big) n (v .big)).congr fun k => ?_
      exact Function.update_of_ne (big_ne_preview _ _) ..
  | preview =>
      refine Numbered.Holds.update (imageName_injective .preview) ?_ n (v .preview)
      exact (h .preview).congr fun k => Function.update_of_ne (big_ne_preview _ _).symm ..

theorem shifting_unlink {files : Directory Content} {f : ImageType → ℕ → Option Content}
    (h : ∀ t, Numbered.Holds (imageName t) files (f t)) (i : ℕ) :
    Shifting (Function.update (Function.update files (imageName .big i) none)
      (imageName .preview i) none) f i i := fun t => by
  rw [Numbered.Gap, Numbered.shifted_self]
  exact holds_update h i (fun _ => none) t

/-- `remove_image` leaves the hole behind the last image. -/
theorem execAll_removeFiles {item : ItemImages Content} {f : ImageType → ℕ → Option Content}
    (h : ∀ t, Numbered.Holds (imageName t) item.files (f t)) {num count : ℕ} (hnum : num < count) :
    Shifting (execAll converted item (removeFiles num count)).files f num (count - 1) := by
  have hloop := (execAll_renameImages converted (count - 1 - num)
    (exec converted (exec converted item (.unlink (imageName .big num)))
      (.unlink (imageName .preview num))) le_rfl (shifting_unlink h num)).2
  rwa [show num + (count - 1 - num) = count - 1 by omega] at hloop

theorem perform_remove {item : ItemImages Content} {f : ImageType → ℕ → Option Content}
    (h : ∀ t, Numbered.Holds (imageName t) item.files (f t)) {num : ℕ}
    (hnum : num < item.numImages) :
    ∃ item', perform converted item (.remove num) = some item'
      ∧ item'.numImages = item.numImages - 1
      ∧ Shifting item'.files f num (item.numImages - 1) := by
  have hperform : perform converted item (.remove num)
      = some { execAll converted item (removeFiles num item.numImages) with
          numImages := item.numImages - 1 } := by
    rw [perform, ImageCall.commands, removeImage, if_neg (by omega), Option.map_some, execAll_append]
    rfl
  exact ⟨_, hperform, rfl, execAll_removeFiles converted h hnum⟩

/-- `add_image` writes the image behind the last one. -/
theorem perform_add (item : ItemImages Content) (photo : Photo) :
    perform converted item (.add photo) = some {
      numImages := item.numImages + 1
      files := Function.update (Function.update item.files (imageName .big item.numImages)
        (some (converted .big photo))) (imageName .preview item.numImages)
        (some (converted .preview photo)) } := rfl

end Effect

/-! ## The files an operation touches -/

/-- The names a command may change. -/
def Command.files : Command Photo → List Bytes
  | .convert imageType _ num => [imageName imageType num]
  | .unlink file => [file]
  | .rename src dst => [src, dst]
  | _ => []

section Frame

variable (converted : ImageType → Photo → Content)

theorem exec_frame {item : ItemImages Content} {c : Command Photo} {file : Bytes}
    (h : file ∉ c.files) : (exec converted item c).files file = item.files file := by
  cases c with
  | convert imageType photo num => exact Function.update_of_ne (by simpa [Command.files] using h) ..
  | unlink name => exact Function.update_of_ne (by simpa [Command.files] using h) ..
  | rename src dst =>
      simp only [Command.files, List.mem_cons, List.not_mem_nil, or_false, not_or] at h
      exact Numbered.move_of_ne h.1 h.2
  | _ => rfl

theorem execAll_frame {cs : List (Command Photo)} {file : Bytes}
    (h : ∀ c ∈ cs, file ∉ c.files) (item : ItemImages Content) :
    (execAll converted item cs).files file = item.files file := by
  induction cs generalizing item with
  | nil => rfl
  | cons c cs ih =>
      rw [execAll_cons, ih (fun c' hc' => h c' (List.mem_cons_of_mem _ hc')),
        exec_frame converted (h c (List.mem_cons_self ..))]

theorem mem_files_addImage {n : ℕ} {photo : Photo} {c : Command Photo} {file : Bytes}
    (hc : c ∈ addImage n photo) (hfile : file ∈ c.files) : ∃ t, file = imageName t n := by
  simp only [addImage, List.mem_cons, List.not_mem_nil, or_false] at hc
  rcases hc with rfl | rfl | rfl | rfl
  · cases hfile
  · exact ⟨.big, List.mem_singleton.mp hfile⟩
  · exact ⟨.preview, List.mem_singleton.mp hfile⟩
  · cases hfile

theorem mem_files_renameImages {is : List ℕ} {i i' : ℕ} {c : Command Photo} {file : Bytes}
    (hc : c ∈ renameImages is (imageName .big i) (imageName .preview i')) (hfile : file ∈ c.files) :
    ∃ t k, file = imageName t k := by
  induction is generalizing i i' with
  | nil => cases hc
  | cons j is ih =>
      rw [renameImages, List.mem_cons, List.mem_cons] at hc
      rcases hc with rfl | rfl | hc
      · rcases List.mem_pair.mp hfile with rfl | rfl
        · exact ⟨.big, j + 1, rfl⟩
        · exact ⟨.big, i, rfl⟩
      · rcases List.mem_pair.mp hfile with rfl | rfl
        · exact ⟨.preview, j + 1, rfl⟩
        · exact ⟨.preview, i', rfl⟩
      · exact ih hc

/-- An operation touches images only. -/
theorem mem_files_commands {n : ℕ} {op : ImageCall Photo} {cs : List (Command Photo)}
    (hcs : op.commands n = some cs) {c : Command Photo} (hc : c ∈ cs) {file : Bytes}
    (hfile : file ∈ c.files) : ∃ t k, file = imageName t k := by
  cases op with
  | add photo =>
      cases hcs
      obtain ⟨t, rfl⟩ := mem_files_addImage hc hfile
      exact ⟨t, n, rfl⟩
  | remove num =>
      rw [ImageCall.commands, removeImage] at hcs
      split at hcs
      · cases hcs
      · cases hcs
        simp only [removeFiles, List.mem_append, List.mem_cons, List.not_mem_nil, or_false] at hc
        rcases hc with (rfl | rfl | hc) | rfl
        · exact ⟨.big, num, List.mem_singleton.mp hfile⟩
        · exact ⟨.preview, num, List.mem_singleton.mp hfile⟩
        · exact mem_files_renameImages hc hfile
        · cases hfile

theorem perform_frame {item item' : ItemImages Content} {op : ImageCall Photo}
    (h : perform converted item op = some item') {file : Bytes}
    (hfile : ∀ t k, file ≠ imageName t k) : item'.files file = item.files file := by
  obtain ⟨cs, hcs, rfl⟩ := Option.map_eq_some_iff.mp h
  refine execAll_frame converted (fun c hc hmem => ?_) item
  obtain ⟨t, k, rfl⟩ := mem_files_commands hcs hc hmem
  exact hfile t k rfl

end Frame

/-! ## A list of photos -/

/-- What an operation means for the photos of an item. -/
def ImageCall.apply (photos : List Photo) : ImageCall Photo → Option (List Photo)
  | .add photo => some (photos ++ [photo])
  | .remove num => if num < photos.length then some (photos.eraseIdx num) else none

/-- The row counts the photos and the files are their conversions, and
there are no others. -/
structure Represents (converted : ImageType → Photo → Content) (item : ItemImages Content)
    (photos : List Photo) : Prop where
  numImages : item.numImages = photos.length
  image : ∀ t k, item.files (imageName t k) = photos[k]?.map (converted t)
  other : ∀ file, (∀ t k, file ≠ imageName t k) → item.files file = none

/-- An item without photos. -/
def noImages : ItemImages Content := { numImages := 0, files := fun _ => none }

section Refine

variable {converted : ImageType → Photo → Content}

theorem represents_noImages : Represents converted noImages [] where
  numImages := rfl
  image := fun _ _ => rfl
  other := fun _ _ => rfl

theorem Represents.holds {item : ItemImages Content} {photos : List Photo}
    (h : Represents converted item photos) (t : ImageType) :
    Numbered.Holds (imageName t) item.files fun k => (photos.map (converted t))[k]? := fun k =>
  (h.image t k).trans List.getElem?_map.symm

theorem represents_add {item : ItemImages Content} {photos : List Photo}
    (h : Represents converted item photos) (photo : Photo) :
    ∃ item', perform converted item (.add photo) = some item'
      ∧ Represents converted item' (photos ++ [photo]) := by
  refine ⟨_, perform_add converted item photo, ?_, fun t k => ?_, fun file hfile => ?_⟩
  · simp [h.numImages]
  · have hlist := Numbered.update_getElem?_length (photos.map (converted t)) (converted t photo)
    rw [List.length_map, ← h.numImages] at hlist
    rw [← List.getElem?_map, List.map_append, List.map_singleton, ← congrFun hlist k]
    exact holds_update h.holds item.numImages (fun t => some (converted t photo)) t k
  · rw [← h.other file hfile]
    exact perform_frame converted (perform_add converted item photo) hfile

theorem represents_remove {item : ItemImages Content} {photos : List Photo}
    (h : Represents converted item photos) {num : ℕ} (hnum : num < photos.length) :
    ∃ item', perform converted item (.remove num) = some item'
      ∧ Represents converted item' (photos.eraseIdx num) := by
  obtain ⟨item', hperform, hcount, hfiles⟩ :=
    perform_remove converted h.holds (show num < item.numImages by rw [h.numImages]; exact hnum)
  refine ⟨item', hperform, ?_, fun t k => ?_, fun file hfile => ?_⟩
  · rw [hcount, h.numImages, List.length_eraseIdx_of_lt hnum]
  · have hlist := Numbered.shifted_getElem? (photos.map (converted t)) num
    rw [List.length_map, ← h.numImages] at hlist
    rw [hfiles t k, hlist, ← List.getElem?_map, List.eraseIdx_map]
  · rw [perform_frame converted hperform hfile, h.other file hfile]

/-- One operation on the item is one on the list. -/
theorem represents_perform {item : ItemImages Content} {photos : List Photo}
    (h : Represents converted item photos) (op : ImageCall Photo) :
    Option.Rel (Represents converted) (perform converted item op) (op.apply photos) := by
  cases op with
  | add photo =>
      obtain ⟨item', hperform, h'⟩ := represents_add h photo
      rw [hperform, ImageCall.apply]
      exact .some h'
  | remove num =>
      by_cases hnum : num < photos.length
      · obtain ⟨item', hperform, h'⟩ := represents_remove h hnum
        rw [hperform, ImageCall.apply, if_pos hnum]
        exact .some h'
      · rw [perform, ImageCall.commands, removeImage, h.numImages, if_pos (by omega),
          ImageCall.apply, if_neg hnum]
        exact .none

theorem represents_foldlM {item : ItemImages Content} {photos : List Photo}
    (h : Represents converted item photos) (ops : List (ImageCall Photo)) :
    Option.Rel (Represents converted) (ops.foldlM (perform converted) item)
      (ops.foldlM ImageCall.apply photos) := by
  induction ops generalizing item photos with
  | nil => exact .some h
  | cons op ops ih =>
      rw [List.foldlM_cons, List.foldlM_cons]
      have hstep := represents_perform h op
      generalize perform converted item op = item' at hstep
      generalize op.apply photos = photos' at hstep
      cases hstep with
      | none => exact .none
      | some h' => exact ih h'

end Refine

/-- Operations on an item that starts without photos succeed as far as the
numbers name photos, and what is stored then is the list of photos that
appending and erasing give. -/
theorem images_refine (converted : ImageType → Photo → Content) (ops : List (ImageCall Photo)) :
    Option.Rel (Represents converted) (ops.foldlM (perform converted) noImages)
      (ops.foldlM ImageCall.apply []) :=
  represents_foldlM represents_noImages ops

/-- Three photos without the first one: the other two, from 0 on. -/
example : ([.add 1, .add 2, .add 3, .remove 0].foldlM (perform imageName) noImages).map
      (fun item => (item.numImages, item.files (imageName .preview 1), item.files (imageName .big 2)))
    = some (2, some (imageName .preview 3), none) := by
  decide +kernel

end Simurga
