import Mathlib.Data.List.DropRight

/-!
# Splitting text as Perl does

The lines of a file, `chomp`, and `split` at a single character, with and
without a limit. Two rules of `split` matter to its callers: without a
limit the empty fields at the end are dropped (`split_getElem?` is what is
left to say of the others), and with limit 2 the second field is the rest
of the text, separators and all (`splitTwo_append`).
-/

namespace Perl

variable {α : Type*} [DecidableEq α]

/-- `chomp`. -/
def chomp (newline : α) (s : List α) : List α :=
  if s.getLast? = some newline then s.dropLast else s

/-- `<$fd>`: the lines of a file, each with its newline. -/
def readLines (newline : α) : List α → List (List α)
  | [] => []
  | c :: s =>
      if c = newline then [c] :: readLines newline s
      else
        match readLines newline s with
        | [] => [[c]]
        | l :: ls => (c :: l) :: ls

/-- `split(/c/, s)`. -/
def split (c : α) (s : List α) : List (List α) := (s.splitOn c).rdropWhile (· = [])

/-- `split(/c/, s, 2)`. -/
def splitTwo (c : α) (s : List α) : List (List α) :=
  if s = [] then []
  else
    match s.dropWhile (· ≠ c) with
    | [] => [s]
    | _ :: rest => [s.takeWhile (· ≠ c), rest]

theorem chomp_append (newline : α) (s : List α) : chomp newline (s ++ [newline]) = s := by
  simp [chomp]

theorem chomp_of_not_mem {newline : α} {s : List α} (h : newline ∉ s) : chomp newline s = s := by
  rw [chomp, if_neg]
  exact fun hlast => h (List.mem_of_getLast? hlast)

theorem chomp_cons {newline c : α} (hc : c ≠ newline) (s : List α) :
    chomp newline (c :: s) = c :: chomp newline s := by
  cases s with
  | nil => simp [chomp, hc]
  | cons d s =>
      rw [chomp, chomp, List.getLast?_cons_cons]
      split <;> rfl

/-- A line and what is behind it. -/
theorem readLines_append {newline : α} {l : List α} (h : newline ∉ l) (s : List α) :
    readLines newline (l ++ newline :: s) = (l ++ [newline]) :: readLines newline s := by
  induction l with
  | nil =>
      rw [List.nil_append, readLines, if_pos rfl]
      rfl
  | cons c l ih =>
      obtain ⟨hc, hl⟩ := not_or.mp (mt List.mem_cons.mpr h)
      rw [List.cons_append, readLines, if_neg fun hcn => hc hcn.symm, ih hl]
      rfl

theorem not_mem_of_mem_splitOn {c : α} {s l : List α} (h : l ∈ s.splitOn c) : c ∉ l := by
  induction s generalizing l with
  | nil =>
      rw [List.splitOn_nil, List.mem_singleton] at h
      simp [h]
  | cons d s ih =>
      obtain ⟨x, xs, hx⟩ := List.exists_cons_of_ne_nil (List.splitOn_ne_nil c s)
      rw [List.splitOn_cons_eq_if_modifyHead, hx] at h
      split at h
      · rcases List.mem_cons.mp h with rfl | h
        · exact List.not_mem_nil
        · exact ih (hx ▸ h)
      · rename_i hd
        rcases List.mem_cons.mp h with rfl | h
        · have hcx : c ∉ x := ih (hx ▸ List.mem_cons_self ..)
          rw [List.mem_cons, not_or]
          exact ⟨fun hcd => hd (beq_iff_eq.mpr hcd.symm), hcx⟩
        · exact ih (hx ▸ List.mem_cons_of_mem x h)

/-- The lines without their newlines are the parts between the newlines, but
for an empty one behind the last. -/
theorem splitOn_readLines (newline : α) (s : List α) :
    s.splitOn newline = (readLines newline s).map (chomp newline)
      ∨ s.splitOn newline = (readLines newline s).map (chomp newline) ++ [[]] := by
  induction s with
  | nil => exact Or.inr rfl
  | cons c s ih =>
      rw [readLines, List.splitOn_cons_eq_if_modifyHead]
      by_cases hc : c = newline
      · have hchomp : chomp newline [c] = [] := by simp [chomp, hc]
        rw [if_pos (by simpa using hc), if_pos hc, List.map_cons, hchomp]
        exact ih.imp (fun h => by rw [h]) fun h => by rw [h, List.cons_append]
      · rw [if_neg (by simpa using hc), if_neg hc]
        cases hlines : readLines newline s with
        | nil =>
            rw [hlines] at ih
            rcases ih with h | h
            · exact absurd h (List.splitOn_ne_nil newline s)
            · exact Or.inl (by rw [h]; simp [chomp, hc])
        | cons l ls =>
            rw [hlines] at ih
            simp only [List.map_cons, chomp_cons hc]
            exact ih.imp (fun h => by rw [h]; rfl) fun h => by rw [h]; rfl

theorem filter_readLines (newline : α) (s : List α) :
    ((readLines newline s).map (chomp newline)).filter (· ≠ [])
      = (s.splitOn newline).filter (· ≠ []) := by
  rcases splitOn_readLines newline s with h | h
  · rw [h]
  · rw [h, List.filter_append]
    simp

/-! ## Fields -/

theorem split_initial (c : α) (s : List α) : split c s <+: s.splitOn c := List.rdropWhile_prefix ..

/-- A field of a split is the field of that place between the separators. -/
theorem split_getElem? {c : α} {s x : List α} {i : Nat} (h : (split c s)[i]? = some x) :
    (s.splitOn c)[i]? = some x := by
  obtain ⟨rest, hrest⟩ := split_initial c s
  obtain ⟨hi, -⟩ := List.getElem?_eq_some_iff.mp h
  rw [← hrest, List.getElem?_append_left hi]
  exact h

/-- Only empty fields are dropped. -/
theorem mem_split_iff {c : α} {s x : List α} (hx : x ≠ []) : x ∈ split c s ↔ x ∈ s.splitOn c := by
  constructor
  · exact fun h => (split_initial c s).subset h
  · intro h
    rw [← List.rdropWhile_append_rtakeWhile (p := (decide <| · = [])) (l := s.splitOn c)] at h
    rcases List.mem_append.mp h with h | h
    · exact h
    · exact absurd (by simpa using List.mem_rtakeWhile_imp h) hx

/-- Nothing is dropped behind a field that is not empty. -/
theorem split_eq_splitOn {c : α} {s : List α}
    (h : (s.splitOn c).getLast (List.splitOn_ne_nil c s) ≠ []) : split c s = s.splitOn c :=
  List.rdropWhile_eq_self_iff.mpr fun _ => by simpa using h

theorem splitTwo_append {c : α} {pre : List α} (h : c ∉ pre) (post : List α) :
    splitTwo c (pre ++ c :: post) = [pre, post] := by
  have hall : ∀ x ∈ pre, decide (x ≠ c) = true := fun x hx => by
    rw [decide_eq_true_eq]
    rintro rfl
    exact h hx
  have hdrop : (pre ++ c :: post).dropWhile (· ≠ c) = c :: post := by
    rw [List.dropWhile_append_of_pos hall, List.dropWhile_cons_of_neg (by simp)]
  have htake : (pre ++ c :: post).takeWhile (· ≠ c) = pre := by
    rw [List.takeWhile_append_of_pos hall, List.takeWhile_cons_of_neg (by simp), List.append_nil]
  rw [splitTwo, if_neg (by simp), hdrop, htake]

theorem splitTwo_of_not_mem {c : α} {s : List α} (h : c ∉ s) (hne : s ≠ []) :
    splitTwo c s = [s] := by
  have hdrop : s.dropWhile (· ≠ c) = [] := by
    rw [List.dropWhile_eq_nil_iff]
    intro x hx
    rw [decide_eq_true_eq]
    rintro rfl
    exact h hx
  rw [splitTwo, if_neg hne, hdrop]

end Perl
