import Mathlib.Data.List.Nodup

/-!
# Tables with keys

A table is a list of rows, a key of it a function on the rows whose values
are distinct. What the statements of a database do to it: an insert of a
row with a free key, an update that keeps the key, a lookup by the key,
and joins of two tables, which by a key are lookups.
-/

namespace Table

variable {Row Key : Type*} {key : Row → Key} {rows : List Row}

theorem nodup_concat {row : Row} (h : (rows.map key).Nodup) (hrow : key row ∉ rows.map key) :
    ((rows ++ [row]).map key).Nodup := by
  rw [List.map_append, List.map_singleton]
  exact List.Nodup.append h (List.nodup_singleton _) (List.disjoint_singleton.mpr hrow)

theorem mem_concat {k : Key} (h : k ∈ rows.map key) (row : Row) : k ∈ (rows ++ [row]).map key := by
  rw [List.map_append]
  exact List.mem_append_left _ h

/-- An update of other columns. -/
theorem map_update {f : Row → Row} (hf : ∀ row ∈ rows, key (f row) = key row) :
    (rows.map f).map key = rows.map key := by
  rw [List.map_map]
  exact List.map_congr_left hf

variable [DecidableEq Key]

/-- What a lookup finds is a row with the key. -/
theorem mem_of_find? {k : Key} {row : Row} (h : rows.find? (fun row => key row = k) = some row) :
    row ∈ rows ∧ key row = k :=
  ⟨List.mem_of_find?_eq_some h, by simpa using List.find?_some h⟩

/-! ## Joins -/

section Join

variable {A B A' B' : Type*} {on : A → B → Bool}

/-- `xs inner join ys on (...)`. -/
def innerJoin (on : A → B → Bool) (xs : List A) (ys : List B) : List (A × B) :=
  xs.flatMap fun x => (ys.filter (on x)).map fun y => (x, y)

/-- `xs left join ys on (...)`. -/
def leftJoin (on : A → B → Bool) (xs : List A) (ys : List B) : List (A × Option B) :=
  xs.flatMap fun x =>
    match ys.filter (on x) with
    | [] => [(x, none)]
    | y :: ys => (y :: ys).map fun y => (x, some y)

theorem mem_innerJoin {xs : List A} {ys : List B} {x : A} {y : B} :
    (x, y) ∈ innerJoin on xs ys ↔ x ∈ xs ∧ y ∈ ys ∧ on x y = true := by
  simp only [innerJoin, List.mem_flatMap, List.mem_map, List.mem_filter, Prod.mk.injEq]
  constructor
  · rintro ⟨_, hx, _, ⟨hy, hon⟩, rfl, rfl⟩
    exact ⟨hx, hy, hon⟩
  · rintro ⟨hx, hy, hon⟩
    exact ⟨x, hx, y, ⟨hy, hon⟩, rfl, rfl⟩

/-- A left join has the rows of its first table. -/
theorem exists_mem_leftJoin {xs : List A} {ys : List B} {x : A} :
    (∃ y, (x, y) ∈ leftJoin on xs ys) ↔ x ∈ xs := by
  simp only [leftJoin, List.mem_flatMap]
  constructor
  · rintro ⟨y, x', hx, hmem⟩
    cases hfilter : ys.filter (on x') with
    | nil =>
        rw [hfilter] at hmem
        cases List.mem_singleton.mp hmem
        exact hx
    | cons z zs =>
        rw [hfilter] at hmem
        obtain ⟨_, -, heq⟩ := List.mem_map.mp hmem
        cases heq
        exact hx
  · intro hx
    cases hfilter : ys.filter (on x) with
    | nil => exact ⟨none, x, hx, by simp [hfilter]⟩
    | cons z zs => exact ⟨some z, x, hx, by simp [hfilter]⟩

/-- Tables whose rows are rewritten, the columns of the condition kept. -/
theorem innerJoin_map {on' : A' → B' → Bool} {f : A → A'} {g : B → B'}
    (hon : ∀ x y, on' (f x) (g y) = on x y) (xs : List A) (ys : List B) :
    innerJoin on' (xs.map f) (ys.map g) = (innerJoin on xs ys).map (Prod.map f g) := by
  rw [innerJoin, innerJoin, List.flatMap_map, List.map_flatMap]
  congr 1
  funext x
  have hfilter : on' (f x) ∘ g = on x := funext fun y => hon x y
  rw [List.filter_map, hfilter, List.map_map, List.map_map]
  rfl

theorem leftJoin_map {on' : A' → B' → Bool} {f : A → A'} {g : B → B'}
    (hon : ∀ x y, on' (f x) (g y) = on x y) (xs : List A) (ys : List B) :
    leftJoin on' (xs.map f) (ys.map g) = (leftJoin on xs ys).map (Prod.map f (Option.map g)) := by
  rw [leftJoin, leftJoin, List.flatMap_map, List.map_flatMap]
  congr 1
  funext x
  have hfilter : on' (f x) ∘ g = on x := funext fun y => hon x y
  rw [List.filter_map, hfilter]
  cases ys.filter (on x) with
  | nil => rfl
  | cons z zs => simp

/-- With at most one partner for each row, a left join is a lookup. -/
theorem leftJoin_eq_map {f : A → Option B} {xs : List A} {ys : List B}
    (h : ∀ x, ys.filter (on x) = (f x).toList) : leftJoin on xs ys = xs.map fun x => (x, f x) := by
  rw [leftJoin, List.map_eq_flatMap]
  congr 1
  funext x
  rw [h]
  cases f x <;> rfl

/-- The rows with a key are at most one. -/
theorem filter_key (h : (rows.map key).Nodup) (k : Key) :
    rows.filter (fun row => key row = k) = (rows.find? fun row => key row = k).toList := by
  induction rows with
  | nil => rfl
  | cons row rows ih =>
      obtain ⟨hrow, hrows⟩ := List.nodup_cons.mp h
      by_cases hk : key row = k
      · have hnone : rows.filter (fun row => key row = k) = [] := by
          rw [List.filter_eq_nil_iff]
          intro row' hrow' hk'
          rw [decide_eq_true_eq] at hk'
          exact hrow (hk.trans hk'.symm ▸ List.mem_map_of_mem hrow')
        rw [List.filter_cons_of_pos (by simpa using hk), List.find?_cons_of_pos (by simpa using hk),
          hnone]
        rfl
      · rw [List.filter_cons_of_neg (by simpa using hk), List.find?_cons_of_neg (by simpa using hk),
          ih hrows]

end Join

end Table
