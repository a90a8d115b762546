import Mathlib.Data.List.Perm.Basic
import Mathlib.Data.List.Nodup
import Mathlib.Data.List.MinMax
import Mathlib.Logic.Function.Iterate

/-!
# Moving a model colour

`Simurga::ModelColor::move_to` (`Simurga.pm`) over the `model_color`
table: distinct ids, and the other columns, which no statement of it
writes. `none` is the script dying on a statement that breaks the
primary key; nothing is committed then.
-/

namespace Simurga

variable {Columns : Type}

/-- A row of `model_color`: its key and its other columns. -/
structure ModelColor (Columns : Type) where
  id : Nat
  columns : Columns
deriving DecidableEq

/-- The table with its primary key. -/
structure ModelColorTable (Columns : Type) where
  rows : List (ModelColor Columns)
  primaryKey : (rows.map ModelColor.id).Nodup

namespace ModelColorTable

def ids (t : ModelColorTable Columns) : List Nat := t.rows.map ModelColor.id

/-- `next_id`: `max(id) + 1`, and 1 for the empty table. -/
def nextId (t : ModelColorTable Columns) : Nat := t.ids.foldr max 0 + 1

theorem nextId_not_mem (t : ModelColorTable Columns) : t.nextId ∉ t.ids := by
  intro h
  have hle : t.nextId ≤ t.ids.foldr max 0 := List.le_max_of_le' 0 h le_rfl
  unfold nextId at hle
  omega

/-! ## The statement -/

/-- The row after `set id = setId where id = whereId`. -/
def setRow (setId whereId : Nat) (r : ModelColor Columns) : ModelColor Columns :=
  if r.id = whereId then { r with id := setId } else r

theorem setRow_nodup {t : ModelColorTable Columns} {setId : Nat} (hfree : setId ∉ t.ids)
    (whereId : Nat) : ((t.rows.map (setRow setId whereId)).map ModelColor.id).Nodup := by
  have hinj : ∀ a ∈ t.ids, ∀ b ∈ t.ids,
      (if a = whereId then setId else a) = (if b = whereId then setId else b) → a = b := by
    intro a ha b hb h
    by_cases haw : a = whereId <;> by_cases hbw : b = whereId <;>
      simp only [haw, hbw, if_true, if_false] at h
    · rw [haw, hbw]
    · exact absurd (h ▸ hb) hfree
    · exact absurd (h ▸ ha) hfree
    · exact h
  have hmap : (t.rows.map (setRow setId whereId)).map ModelColor.id
      = t.ids.map fun x => if x = whereId then setId else x := by
    rw [ids, List.map_map, List.map_map]
    refine List.map_congr_left fun r _ => ?_
    simp only [Function.comp, setRow]
    split <;> rfl
  rw [hmap]
  exact List.Nodup.map_on hinj t.primaryKey

/-- ``update `model_color` set `id` = ? where `id` = ?``. -/
def execute (t : ModelColorTable Columns) (setId whereId : Nat) : Option (ModelColorTable Columns) :=
  if whereId ∈ t.ids then
    if setId = whereId then some t
    else if h : setId ∈ t.ids then none
    else some ⟨t.rows.map (setRow setId whereId), setRow_nodup h whereId⟩
  else some t

theorem execute_absent {t : ModelColorTable Columns} {setId whereId : Nat} (h : whereId ∉ t.ids) :
    t.execute setId whereId = some t := by
  rw [execute, if_neg h]

theorem execute_duplicate {t : ModelColorTable Columns} {setId whereId : Nat} (h : whereId ∈ t.ids)
    (hset : setId ∈ t.ids) (hne : setId ≠ whereId) : t.execute setId whereId = none := by
  rw [execute, if_pos h, if_neg hne, dif_pos hset]

/-- A statement that sets a free id leaves `whereId` free, and the other
ids where they are. -/
theorem execute_free {t : ModelColorTable Columns} {setId : Nat} (whereId : Nat)
    (hset : setId ∉ t.ids) :
    ∃ t', t.execute setId whereId = some t' ∧ whereId ∉ t'.ids
      ∧ ∀ x, x ≠ whereId → x ∈ t.ids → x ∈ t'.ids := by
  by_cases h : whereId ∈ t.ids
  · have hne : setId ≠ whereId := fun he => hset (he ▸ h)
    refine ⟨⟨t.rows.map (setRow setId whereId), setRow_nodup hset whereId⟩, ?_, ?_, ?_⟩
    · rw [execute, if_pos h, if_neg hne, dif_neg hset]
    · simp only [ids, List.map_map, List.mem_map, Function.comp, not_exists, not_and]
      intro r _
      unfold setRow
      split
      · exact hne
      · assumption
    · intro x hx hmem
      obtain ⟨r, hr, rfl⟩ := List.mem_map.mp hmem
      refine List.mem_map.mpr ⟨setRow setId whereId r, List.mem_map_of_mem hr, ?_⟩
      rw [setRow, if_neg hx]
  · exact ⟨t, execute_absent h, h, fun x _ hx => hx⟩

/-! ## `move_to` -/

/-- The two loops of step 2: `count` turns of `execute(id, next id)`. -/
def shift (next : Nat → Nat) : (count id : Nat) → ModelColorTable Columns →
    Option (ModelColorTable Columns)
  | 0, _, t => some t
  | count + 1, id, t => (t.execute id (next id)).bind (shift next count (next id))

/-- `for (my $id = $old_id; $id < $new_id; $id++)`. -/
def shiftUp (oldId newId : Nat) : ModelColorTable Columns → Option (ModelColorTable Columns) :=
  shift (· + 1) (newId - oldId) oldId

/-- `for (my $id = $old_id; $id > $new_id; $id--)`. -/
def shiftDown (oldId newId : Nat) : ModelColorTable Columns → Option (ModelColorTable Columns) :=
  shift (· - 1) (oldId - newId) oldId

/-- Step 2: move another items to make `newId` free. -/
def makeFree (oldId newId : Nat) (t : ModelColorTable Columns) :
    Option (ModelColorTable Columns) :=
  if oldId < newId then shiftUp oldId newId t else shiftDown oldId newId t

/-- `move_to` on the object of row `oldId`: the table and the object's
new id. -/
def moveTo (t : ModelColorTable Columns) (oldId newId : Nat) :
    Option (ModelColorTable Columns × Nat) :=
  let tmpId := t.nextId
  if newId = oldId then some (t, oldId)
  else do
    -- 1. Move current item to the temporary position.
    let t ← t.execute oldId tmpId
    -- 2. Move another items to make new_id free
    let t ← makeFree oldId newId t
    -- 3. Move temporary item to the new id
    let t ← t.execute tmpId newId
    pure (t, newId)

/-! ## What it should do -/

/-- Where the rotation of the ids between `oldId` and `newId` takes a row. -/
def rotateId (oldId newId id : Nat) : Nat :=
  if id = oldId then newId
  else if oldId < id ∧ id ≤ newId then id - 1
  else if newId ≤ id ∧ id < oldId then id + 1
  else id

/-- The call returns with the rows of the rotated table. -/
def Rotates (t : ModelColorTable Columns) (oldId newId : Nat) : Prop :=
  ∃ t', t.moveTo oldId newId = some (t', newId)
    ∧ t'.rows.Perm (t.rows.map fun r => { r with id := rotateId oldId newId r.id })

/-- The id next to `oldId` on the way to `newId`. -/
def neighbour (oldId newId : Nat) : Nat := if oldId < newId then oldId + 1 else oldId - 1

theorem eq_neighbour_of_rotateId {oldId newId id : Nat} (hne : newId ≠ oldId)
    (h : rotateId oldId newId id = oldId) : id = neighbour oldId newId := by
  unfold rotateId at h
  unfold neighbour
  split_ifs at h ⊢ <;> omega

/-! ## What it does -/

/-- With its first target free, the loop never breaks the key, and it
leaves alone the ids it does not pass. -/
theorem shift_free {next : Nat → Nat} {kept : Nat} : ∀ (count id : Nat)
    {t : ModelColorTable Columns}, id ∉ t.ids → kept ∈ t.ids →
      (∀ k < count, Nat.iterate next (k + 1) id ≠ kept) →
      ∃ t', shift next count id t = some t' ∧ Nat.iterate next count id ∉ t'.ids ∧ kept ∈ t'.ids
  | 0, id, t, hfree, hkept, _ => ⟨t, rfl, hfree, hkept⟩
  | count + 1, id, t, hfree, hkept, hpass => by
      obtain ⟨t', hexec, hfree', hothers⟩ := execute_free (next id) hfree
      have hkept' : kept ∈ t'.ids := hothers kept (hpass 0 (by omega)).symm hkept
      obtain ⟨t'', hshift, hlast⟩ := shift_free count (next id) hfree' hkept'
        (fun k hk => hpass (k + 1) (by omega))
      refine ⟨t'', ?_, hlast⟩
      rw [shift, hexec, Option.bind_some, hshift]

theorem iterate_succ (k id : Nat) : Nat.iterate (· + 1) k id = id + k := by
  induction k generalizing id with
  | zero => rfl
  | succ k ih => rw [Function.iterate_succ, Function.comp, ih]; omega

theorem iterate_pred (k id : Nat) : Nat.iterate (· - 1) k id = id - k := by
  induction k generalizing id with
  | zero => rfl
  | succ k ih => rw [Function.iterate_succ, Function.comp, ih]; omega

/-- Step 2 from the row itself: the first statement asks for the id it has. -/
theorem shift_old (next : Nat → Nat) (count : Nat) {oldId : Nat} {t : ModelColorTable Columns}
    (hold : oldId ∈ t.ids) (hne : oldId ≠ next oldId)
    (hpass : ∀ k < count + 1, Nat.iterate next (k + 1) oldId ≠ oldId) :
    (next oldId ∈ t.ids ∧ shift next (count + 1) oldId t = none)
    ∨ (next oldId ∉ t.ids ∧ ∃ t', shift next (count + 1) oldId t = some t'
        ∧ Nat.iterate next (count + 1) oldId ∉ t'.ids ∧ oldId ∈ t'.ids) := by
  by_cases h : next oldId ∈ t.ids
  · refine Or.inl ⟨h, ?_⟩
    rw [shift, execute_duplicate h hold hne]
    rfl
  · refine Or.inr ⟨h, ?_⟩
    rw [shift, execute_absent h, Option.bind_some]
    exact shift_free count (next oldId) h hold (fun k hk => hpass (k + 1) (by omega))

/-- Step 2 in either direction. -/
theorem makeFree_cases {oldId newId : Nat} (hne : newId ≠ oldId) {t : ModelColorTable Columns}
    (hold : oldId ∈ t.ids) :
    (neighbour oldId newId ∈ t.ids ∧ makeFree oldId newId t = none)
    ∨ (neighbour oldId newId ∉ t.ids
        ∧ ∃ t', makeFree oldId newId t = some t' ∧ newId ∉ t'.ids ∧ oldId ∈ t'.ids) := by
  unfold neighbour makeFree
  by_cases hlt : oldId < newId
  · obtain ⟨n, rfl⟩ : ∃ n, newId = oldId + (n + 1) := ⟨newId - oldId - 1, by omega⟩
    have h := shift_old (· + 1) n hold (by omega)
      (fun k _ => by rw [iterate_succ]; omega)
    rw [iterate_succ] at h
    rw [if_pos hlt, if_pos hlt, shiftUp, Nat.add_sub_cancel_left]
    exact h
  · obtain ⟨n, hn⟩ : ∃ n, oldId = newId + (n + 1) := ⟨oldId - newId - 1, by omega⟩
    have h := shift_old (· - 1) n hold (by omega)
      (fun k _ => by rw [iterate_pred]; omega)
    rw [iterate_pred, show oldId - (n + 1) = newId by omega] at h
    rw [if_neg hlt, if_neg hlt, shiftDown, show oldId - newId = n + 1 by omega]
    exact h

/-- The placeholders of steps 1 and 3 are the wrong way round: with a
neighbour in the way the script dies, and otherwise the row is where it
was. So no call rotates. -/
theorem moveTo_not_rotates (t : ModelColorTable Columns) {oldId newId : Nat}
    (hold : oldId ∈ t.ids) (hne : newId ≠ oldId) :
    ¬ t.Rotates oldId newId
    ∧ (t.moveTo oldId newId = none ↔ neighbour oldId newId ∈ t.ids)
    ∧ ∀ t' id, t.moveTo oldId newId = some (t', id) → oldId ∈ t'.ids := by
  have hstep1 : t.execute oldId t.nextId = some t := execute_absent t.nextId_not_mem
  have hmove : t.moveTo oldId newId
      = (makeFree oldId newId t).bind fun t' =>
          (t'.execute t.nextId newId).bind fun t' => some (t', newId) := by
    unfold moveTo
    simp only [if_neg hne, hstep1]
    rfl
  rcases makeFree_cases hne hold with ⟨hnext, hdies⟩ | ⟨hnext, t', hshift, hnew, hkept⟩
  · have hnone : t.moveTo oldId newId = none := by rw [hmove, hdies]; rfl
    refine ⟨?_, by simp [hnone, hnext], by simp [hnone]⟩
    rintro ⟨t', h, -⟩
    rw [hnone] at h
    cases h
  · have hsome : t.moveTo oldId newId = some (t', newId) := by
      rw [hmove, hshift, Option.bind_some, execute_absent hnew]
      rfl
    refine ⟨?_, by simp [hsome, hnext], ?_⟩
    · rintro ⟨t'', h, hperm⟩
      rw [hsome] at h
      cases h
      obtain ⟨r, hr, hid⟩ := List.mem_map.mp hkept
      obtain ⟨r₀, hr₀, rfl⟩ := List.mem_map.mp (hperm.mem_iff.mp hr)
      exact hnext (eq_neighbour_of_rotateId hne hid ▸ List.mem_map_of_mem hr₀)
    · intro t'' id h
      rw [hsome] at h
      cases h
      exact hkept

/-- Two rows, and a gap between them. -/
def sampleTable : ModelColorTable Unit := ⟨[⟨1, ()⟩, ⟨3, ()⟩], by decide⟩

theorem moveTo_not_rotates_sample : ¬ sampleTable.Rotates 1 3 ∧ ¬ sampleTable.Rotates 3 2 :=
  ⟨(moveTo_not_rotates sampleTable (by decide) (by decide)).1,
    (moveTo_not_rotates sampleTable (by decide) (by decide)).1⟩

/-- Moving row 1 to 3 dies if 2 is there, and moves 3 to 2 if it is not. -/
theorem moveTo_one_three :
    (moveTo (⟨[⟨1, 10⟩, ⟨2, 20⟩, ⟨3, 30⟩], by decide⟩ : ModelColorTable Nat) 1 3).isNone = true
    ∧ ((moveTo (⟨[⟨1, 10⟩, ⟨3, 30⟩], by decide⟩ : ModelColorTable Nat) 1 3).map fun r => r.1.rows)
      = some [⟨1, 10⟩, ⟨2, 30⟩] := by
  decide

end ModelColorTable

end Simurga
