import Simurga.Images
import Simurga.Lib.Machine
import Mathlib.Data.List.Infix

/-!
# Photos and failures

The script `photo` at the level of its commands: the files change with
each of them, the row only when the script commits, and a script may fail
or be ended anywhere. An image of the page is one below the committed
number. `add_image` keeps all of them at every point
(`complete_addImage`); `remove_image` lacks one from its first command on
(`exists_missing_removal`). So images stay complete as long as no removal
that has begun is cut short (`photos_complete`).
-/

namespace Simurga

variable {Photo Content : Type}

/-! ## The machine -/

/-- A running script: the commands it has done and those it has to do
before it commits. -/
structure Script (Photo : Type) where
  call : ImageCall Photo
  done : List (Command Photo)
  todo : List (Command Photo)

/-- An item between the commands of the scripts; `item.numImages` is the
row as the open transaction sees it. -/
structure PhotoState (Photo Content : Type) where
  committed : ℕ
  item : ItemImages Content
  script : Option (Script Photo)

inductive PhotoAct (Photo Content : Type) where
  | start (op : ImageCall Photo)
  | next
  /-- The next command fails; a `convert` may leave anything in its file. -/
  | fail (left : Option Content)
  /-- The script ends before it commits. -/
  | exit

/-- The end of a script that has not committed. -/
def PhotoState.rollback (s : PhotoState Photo Content) : PhotoState Photo Content :=
  { s with item := { s.item with numImages := s.committed }, script := none }

/-- `photo add` and `photo remove`, one command at a time; the events are
the commands. A removal with a wrong number dies at once. -/
def photoStep (converted : ImageType → Photo → Content) (s : PhotoState Photo Content) :
    PhotoAct Photo Content → Option (PhotoState Photo Content × List (Command Photo))
  | .start op =>
      match s.script, op.commands s.item.numImages with
      | none, some cs => some ({ s with script := some { call := op, done := [], todo := cs } }, [])
      | none, none => some (s, [])
      | some _, _ => none
  | .next =>
      match s.script with
      | some script =>
          match script.todo with
          | c :: cs =>
              some ({ s with
                item := exec converted s.item c
                script := some { script with done := script.done ++ [c], todo := cs } }, [c])
          | [] => some ({ s with committed := s.item.numImages, script := none }, [])
      | none => none
  | .fail left =>
      match s.script with
      | some script =>
          match script.todo with
          | .convert imageType _ num :: _ =>
              let files := Function.update s.item.files (imageName imageType num) left
              some ({ s with item := { s.item with files := files } }.rollback, [])
          | .save _ :: _ => some (s.rollback, [])
          | _ => none
      | none => none
  | .exit =>
      match s.script with
      | some _ => some (s.rollback, [])
      | none => none

/-- An item that is new in the database. -/
def newItem (files : Directory Content) : PhotoState Photo Content :=
  { committed := 0, item := { numImages := 0, files := files }, script := none }

/-- A removal that has begun is not cut short. -/
def goesOn (_ : List (Command Photo)) (s : PhotoState Photo Content) (a : PhotoAct Photo Content) :
    Prop :=
  match s.script, a with
  | some { call := .remove _, done := _ :: _, .. }, .fail _ => False
  | some { call := .remove _, done := _ :: _, .. }, .exit => False
  | _, _ => True

instance (log : List (Command Photo)) (s : PhotoState Photo Content) (a : PhotoAct Photo Content) :
    Decidable (goesOn log s a) := by
  unfold goesOn
  split <;> infer_instance

/-! ## Complete images -/

/-- Both files of each image below `n` exist. -/
def Complete (files : Directory Content) (n : ℕ) : Prop :=
  ∀ k < n, ∀ t, (files (imageName t k)).isSome

section Complete

variable {converted : ImageType → Photo → Content}

theorem holds_self (files : Directory Content) (t : ImageType) :
    Numbered.Holds (imageName t) files fun k => files (imageName t k) := fun _ => rfl

/-- An operation that goes through. -/
theorem complete_perform {item item' : ItemImages Content} {op : ImageCall Photo}
    (h : Complete item.files item.numImages) (hperform : perform converted item op = some item') :
    Complete item'.files item'.numImages := by
  cases op with
  | add photo =>
      rw [perform_add] at hperform
      cases hperform
      intro k hk t
      dsimp only at hk ⊢
      rw [holds_update (holds_self item.files) item.numImages
        (fun t => some (converted t photo)) t k]
      by_cases hlast : k = item.numImages
      · rw [hlast, Function.update_self, Option.isSome_some]
      · rw [Function.update_of_ne hlast]
        exact h k (by omega) t
  | remove num =>
      by_cases hnum : num < item.numImages
      · obtain ⟨item'', hperform', hcount, hfiles⟩ :=
          perform_remove converted (holds_self item.files) hnum
        rw [hperform'] at hperform
        cases hperform
        intro k hk t
        rw [hcount] at hk
        rw [hfiles t k]
        exact Numbered.shifted_isSome (fun k hk => h k hk t) hk
      · rw [perform, ImageCall.commands, removeImage, if_pos (by omega)] at hperform
        cases hperform

/-- An addition that has come to any point of its commands. -/
theorem complete_addImage {item : ItemImages Content} {photo : Photo}
    {done : List (Command Photo)} (h : Complete item.files item.numImages)
    (hdone : done ⊆ addImage item.numImages photo) :
    Complete (execAll converted item done).files item.numImages := by
  intro k hk t
  rw [execAll_frame converted fun c hc hmem => ?_]
  · exact h k hk t
  · obtain ⟨t', hname⟩ := mem_files_addImage (hdone hc) hmem
    have hk' := (imageName_inj hname).2
    omega

/-- In the loop a preview is missing: the one that is to be filled next. -/
theorem exists_missing_rename (n : ℕ) : ∀ {j : ℕ} (item : ItemImages Content) {big : Bytes}
    {done : List (Command Photo)}, big ≠ imageName .preview j →
    item.files (imageName .preview j) = none →
    done <+: renameImages (List.range' j n) big (imageName .preview j) →
    ∃ k ≤ j + n, (execAll converted item done).files (imageName .preview k) = none := by
  induction n with
  | zero =>
      intro j item big done hbig hnone hdone
      rw [List.range'_zero, renameImages, List.prefix_nil] at hdone
      exact ⟨j, by omega, by rw [hdone]; exact hnone⟩
  | succ n ih =>
      intro j item big done hbig hnone hdone
      rw [List.range'_succ, renameImages] at hdone
      rcases List.prefix_cons_iff.mp hdone with rfl | ⟨done₁, rfl, hdone₁⟩
      · exact ⟨j, by omega, hnone⟩
      · have hnone' : (exec converted item (.rename (imageName .big (j + 1)) big)).files
            (imageName .preview j) = none :=
          (Numbered.move_of_ne (big_ne_preview _ _).symm hbig.symm).trans hnone
        rcases List.prefix_cons_iff.mp hdone₁ with rfl | ⟨done₂, rfl, hdone₂⟩
        · exact ⟨j, by omega, hnone'⟩
        · have hne : imageName .preview (j + 1) ≠ imageName .preview j := fun h => by
            have := (imageName_inj h).2
            omega
          obtain ⟨k, hk, hmissing⟩ := ih
            (exec converted (exec converted item (.rename (imageName .big (j + 1)) big))
              (.rename (imageName .preview (j + 1)) (imageName .preview j)))
            (big_ne_preview _ _) (Numbered.move_src hne) hdone₂
          exact ⟨k, by omega, hmissing⟩

/-- A removal that has begun and not committed: an image is missing. -/
theorem exists_missing_removal {item : ItemImages Content} {num : ℕ}
    {done todo : List (Command Photo)}
    (hcs : (ImageCall.remove num).commands item.numImages = some (done ++ todo)) (hne : done ≠ []) :
    ∃ k < item.numImages, ∃ t, (execAll converted item done).files (imageName t k) = none := by
  rw [ImageCall.commands, removeImage] at hcs
  split at hcs
  · cases hcs
  · rename_i hnum
    obtain ⟨c, done, rfl⟩ := List.exists_cons_of_ne_nil hne
    rw [removeFiles, Option.some.injEq, List.cons_append, List.cons_append, List.cons_append,
      List.cons.injEq] at hcs
    obtain ⟨rfl, hcs⟩ := hcs
    cases done with
    | nil => exact ⟨num, by omega, .big, Function.update_self ..⟩
    | cons c done =>
        rw [List.cons_append, List.cons.injEq] at hcs
        obtain ⟨rfl, hcs⟩ := hcs
        have hloop : ∀ {rest}, rest <+: renameImages (List.range' num (item.numImages - 1 - num))
            (imageName .big num) (imageName .preview num) →
            ∃ k ≤ num + (item.numImages - 1 - num), (execAll converted item
              (.unlink (imageName .big num) :: .unlink (imageName .preview num) :: rest)).files
              (imageName .preview k) = none :=
          exists_missing_rename _ (exec converted (exec converted item _) _) (big_ne_preview _ _)
            (Function.update_self ..)
        rcases List.append_eq_append_iff.mp hcs with ⟨mid, hdone, hmid⟩ | ⟨mid, hdone, hmid⟩
        · -- Past the loop only the saving is left, which changes no file.
          obtain ⟨k, hk, hmissing⟩ := hloop List.prefix_rfl
          refine ⟨k, by omega, .preview, ?_⟩
          rw [hdone, ← List.cons_append, ← List.cons_append, execAll_append,
            execAll_frame converted fun c hc hmem => ?_]
          · exact hmissing
          · have hsave : c ∈ [Command.save (item.numImages - 1)] := by
              rw [hmid]
              exact List.mem_append_left todo hc
            rw [List.mem_singleton.mp hsave] at hmem
            cases hmem
        · obtain ⟨k, hk, hmissing⟩ := hloop ⟨mid, hdone.symm⟩
          exact ⟨k, by omega, .preview, hmissing⟩

end Complete

/-! ## Runs -/

/-- At rest the images are complete; a script has done a part of its
commands on complete images. -/
inductive PhotoInv (converted : ImageType → Photo → Content) : PhotoState Photo Content → Prop where
  | rest {n : ℕ} {files : Directory Content} (h : Complete files n) :
      PhotoInv converted
        { committed := n, item := { numImages := n, files := files }, script := none }
  | running {item : ItemImages Content} {call : ImageCall Photo} {done todo : List (Command Photo)}
      (h : Complete item.files item.numImages)
      (hcs : call.commands item.numImages = some (done ++ todo)) :
      PhotoInv converted {
        committed := item.numImages
        item := execAll converted item done
        script := some { call := call, done := done, todo := todo } }

theorem convert_not_mem_renameImages (is : List ℕ) (big preview : Bytes) (t : ImageType)
    (photo : Photo) (num : ℕ) : Command.convert t photo num ∉ renameImages is big preview := by
  induction is generalizing big preview with
  | nil => simp [renameImages]
  | cons i is ih => simp [renameImages, ih]

/-- Only additions convert, and they write behind the last image. -/
theorem num_of_convert {call : ImageCall Photo} {n num : ℕ} {cs : List (Command Photo)}
    {t : ImageType} {photo : Photo} (hcs : call.commands n = some cs)
    (hmem : Command.convert t photo num ∈ cs) : num = n := by
  cases call with
  | add photo' =>
      cases hcs
      simp only [addImage, List.mem_cons, List.not_mem_nil, Command.convert.injEq, reduceCtorEq,
        or_false, false_or] at hmem
      rcases hmem with ⟨-, -, hnum⟩ | ⟨-, -, hnum⟩ <;> exact hnum
  | remove i =>
      rw [ImageCall.commands, removeImage] at hcs
      split at hcs
      · cases hcs
      · cases hcs
        simp [removeFiles, convert_not_mem_renameImages] at hmem

section Runs

variable {converted : ImageType → Photo → Content}

/-- Where the guard lets a script end, the images are complete. -/
theorem complete_cut {item : ItemImages Content} {call : ImageCall Photo}
    {done todo log : List (Command Photo)} {a : PhotoAct Photo Content}
    (h : Complete item.files item.numImages)
    (hcs : call.commands item.numImages = some (done ++ todo))
    (ha : a = .exit ∨ ∃ left, a = .fail left)
    (hok : goesOn log {
      committed := item.numImages
      item := execAll converted item done
      script := some { call := call, done := done, todo := todo } } a) :
    Complete (execAll converted item done).files item.numImages := by
  cases call with
  | add photo =>
      have hall : done ++ todo = addImage item.numImages photo := (Option.some.inj hcs).symm
      have hdone : done ⊆ addImage item.numImages photo := by
        rw [← hall]
        exact List.subset_append_left done todo
      exact complete_addImage h hdone
  | remove num =>
      cases done with
      | nil => exact h
      | cons c done => rcases ha with rfl | ⟨left, rfl⟩ <;> exact False.elim hok

/-- What a failed `convert` leaves is behind the images of an addition. -/
theorem complete_update {item : ItemImages Content} {call : ImageCall Photo} {t : ImageType}
    {photo : Photo} {num : ℕ} {done todo : List (Command Photo)}
    (h : Complete (execAll converted item done).files item.numImages)
    (hcs : call.commands item.numImages = some (done ++ .convert t photo num :: todo))
    (left : Option Content) :
    Complete (Function.update (execAll converted item done).files (imageName t num) left)
      item.numImages := by
  have hmem : Command.convert t photo num ∈ done ++ .convert t photo num :: todo := by simp
  have hnum : num = item.numImages := num_of_convert hcs hmem
  intro k hk t'
  rw [Function.update_of_ne fun hname => ?_]
  · exact h k hk t'
  · have hk' := (imageName_inj hname).2
    omega

theorem photoInv_step {log es : List (Command Photo)} {s s' : PhotoState Photo Content}
    {a : PhotoAct Photo Content} (h : PhotoInv converted s) (hok : goesOn log s a)
    (hstep : photoStep converted s a = some (s', es)) : PhotoInv converted s' := by
  cases h with
  | rest h =>
      cases a with
      | start call =>
          simp only [photoStep] at hstep
          cases hcs : call.commands _ with
          | none =>
              rw [hcs] at hstep
              cases hstep
              exact .rest h
          | some cs =>
              rw [hcs] at hstep
              cases hstep
              exact @PhotoInv.running _ _ _ ⟨_, _⟩ call [] cs h hcs
      | _ => cases hstep
  | @running item call done todo h hcs =>
      cases a with
      | start call' => cases hstep
      | next =>
          cases todo with
          | nil =>
              cases hstep
              rw [List.append_nil] at hcs
              have hperform : perform converted item call = some (execAll converted item done) := by
                rw [perform, hcs, Option.map_some]
              exact .rest (complete_perform h hperform)
          | cons c todo =>
              cases hstep
              have hexec : exec converted (execAll converted item done) c
                  = execAll converted item (done ++ [c]) := by rw [execAll_append]; rfl
              rw [hexec]
              exact .running h (by rw [hcs, List.append_assoc, List.singleton_append])
      | fail left =>
          have hcut := complete_cut h hcs (Or.inr ⟨left, rfl⟩) hok
          cases todo with
          | nil => cases hstep
          | cons c todo =>
              cases c with
              | convert t photo num =>
                  cases hstep
                  exact .rest (complete_update hcut hcs left)
              | save n =>
                  cases hstep
                  exact .rest hcut
              | _ => cases hstep
      | exit =>
          cases hstep
          exact .rest (complete_cut h hcs (Or.inl rfl) hok)

theorem photoInv_reach {files : Directory Content} {log : List (Command Photo)}
    {s : PhotoState Photo Content}
    (h : Machine.Reach (photoStep converted) goesOn (newItem files) log s) : PhotoInv converted s := by
  refine h.invariant (fun _ s => PhotoInv converted s) ?_ ?_
  · exact .rest fun k hk => absurd hk (Nat.not_lt_zero k)
  · exact fun hinv hok hstep => photoInv_step hinv hok hstep

end Runs

/-- The files a page lists are images of the item. -/
theorem listed_exist {files : Directory Content} {n : ℕ} (h : Complete files n)
    {model : ModelView} (hn : model.numImages = UInt32.ofNat n) {images : List Item}
    (himages : modelArguments model (bytes "previews") = some (.array images)) :
    ∀ item ∈ images, ∀ name ∈ [bytes "big", bytes "preview"],
      ∃ file, item name = some file ∧ (files file).isSome := by
  have hlist : images = (List.range model.numImages.toNat).map fun i => previewItem (UInt32.ofNat i) := by
    simp only [modelArguments, Function.update_self, Option.some.injEq, TemplateArgument.array.injEq] at himages
    exact himages.symm
  subst hlist
  intro item hitem name hname
  obtain ⟨i, hi, rfl⟩ := List.mem_map.mp hitem
  have hi' : i < n := by
    rw [List.mem_range, hn, UInt32.toNat_ofNat'] at hi
    exact lt_of_lt_of_le hi (Nat.mod_le ..)
  have hnum : (UInt32.ofNat i).toNat = i := by
    rw [UInt32.toNat_ofNat']
    have hlt := model.numImages.toNat_lt
    rw [List.mem_range] at hi
    omega
  have hfile : ∀ t, (files (imagePath t (UInt32.ofNat i))).isSome := fun t => by
    rw [imagePath_eq, hnum]
    exact h i hi' t
  rcases List.mem_pair.mp hname with rfl | rfl
  · exact ⟨_, rfl, hfile .big⟩
  · exact ⟨_, rfl, hfile .preview⟩

/-- An item's images at the ends of its scripts, in runs in which no removal
that has begun is cut short: the two files of each image below the committed
number exist, and so do the files that the page lists. In no other runs:
from its first command to its commit a removal lacks an image. -/
theorem photos_complete (converted : ImageType → Photo → Content) (files : Directory Content)
    {log : List (Command Photo)} {s : PhotoState Photo Content}
    (hreach : Machine.Reach (photoStep converted) goesOn (newItem files) log s) :
    (s.script = none → Complete s.item.files s.committed
      ∧ ∀ model images, model.numImages = UInt32.ofNat s.committed →
          modelArguments model (bytes "previews") = some (.array images) →
          ∀ item ∈ images, ∀ name ∈ [bytes "big", bytes "preview"],
            ∃ file, item name = some file ∧ (s.item.files file).isSome)
    ∧ (¬ goesOn log s .exit → ¬ Complete s.item.files s.committed) := by
  have hinv := photoInv_reach hreach
  clear hreach
  cases hinv with
  | rest h =>
      exact ⟨fun _ => ⟨h, fun model images hn himages => listed_exist h hn himages⟩,
        fun hnot => absurd trivial hnot⟩
  | @running item call done todo h hcs =>
      refine ⟨fun hnone => (Option.some_ne_none _ hnone).elim, fun hnot hcomplete => ?_⟩
      cases call with
      | add photo => exact hnot trivial
      | remove num =>
          cases done with
          | nil => exact hnot trivial
          | cons c done =>
              obtain ⟨k, hk, t, hmissing⟩ := exists_missing_removal hcs (List.cons_ne_nil c done)
              have hsome := hcomplete k hk t
              rw [hmissing] at hsome
              cases hsome

/-- Two photos, a failed preview of a third, and the first one removed. -/
theorem photos_complete_sample :
    ∃ log s, Machine.Reach (photoStep fun t (_ : ℕ) => imageName t 0) goesOn
        (newItem fun _ => none) log s ∧ s.committed = 1 ∧ Complete s.item.files 1 := by
  obtain ⟨log, s, hreach, hs⟩ := Machine.exists_reach_of_run
    (photoStep fun t (_ : ℕ) => imageName t 0) goesOn (newItem fun _ => none)
    [.start (.add 1), .next, .next, .next, .next, .next,
      .start (.add 2), .next, .next, .next, .next, .next,
      .start (.add 3), .next, .next, .fail none,
      .start (.remove 0), .next, .next, .next, .next, .next, .next]
    (fun _ s => s.committed == 1 && s.script.isNone) (by decide +kernel)
  simp only [Bool.and_eq_true, beq_iff_eq, Option.isNone_iff_eq_none] at hs
  have hcomplete := ((photos_complete (fun t (_ : ℕ) => imageName t 0) _ hreach).1 hs.2).1
  rw [hs.1] at hcomplete
  exact ⟨log, s, hreach, hs.1, hcomplete⟩

/-- A removal that ends after its first command: the page lists one image,
and its file is gone. -/
theorem photos_missing :
    ∃ log s, Machine.Reach (photoStep fun t (_ : ℕ) => imageName t 0) Machine.anyOrder
        (newItem fun _ => none) log s ∧ s.script = none ∧ s.committed = 1
      ∧ s.item.files (imagePath .big 0) = none := by
  obtain ⟨log, s, hreach, hs⟩ := Machine.exists_reach_of_run
    (photoStep fun t (_ : ℕ) => imageName t 0) Machine.anyOrder (newItem fun _ => none)
    [.start (.add 1), .next, .next, .next, .next, .next, .start (.remove 0), .next, .exit]
    (fun _ s => s.script.isNone && s.committed == 1 && s.item.files (imagePath .big 0) == none)
    (by decide +kernel)
  simp only [Bool.and_eq_true, beq_iff_eq, Option.isNone_iff_eq_none] at hs
  exact ⟨log, s, hreach, hs.1.1, hs.1.2, hs.2⟩

end Simurga
