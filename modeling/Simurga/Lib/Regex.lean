import Mathlib.Data.List.DropRight

/-!
# Matching with backtracking

Patterns without captures, as Perl matches them: atoms in a row, where a
starred one takes as much as it can and gives back one character at a time.
`split` cuts a text at the leftmost matches of a pattern.

The pattern of this file is `runs`: a stretch of one kind of characters
(white space) with a number of marks in it (newlines). Backtracking or not,
it matches a whole stretch if there are marks enough in it and not at all
otherwise (`matchSeq_runs`), so a text is cut between the pieces it was put
together from (`split_weave`).
-/

namespace Regex

variable {α : Type*}

/-- A class of characters, once or starred. -/
inductive Atom (α : Type*) where
  | one (p : α → Bool)
  | star (p : α → Bool)

/-- A starred class in front of a pattern: the longest stretch first. -/
def star (p : α → Bool) (k : List α → Option (List α)) : List α → Option (List α)
  | [] => k []
  | c :: s => if p c then (star p k s).or (k (c :: s)) else k (c :: s)

/-- What is behind the match at the start of a text. -/
def matchSeq : List (Atom α) → List α → Option (List α)
  | [], s => some s
  | .one _ :: _, [] => none
  | .one p :: atoms, c :: s => if p c then matchSeq atoms s else none
  | .star p :: atoms, s => star p (matchSeq atoms) s

/-- What is before and what is behind the leftmost match. -/
def cut (atoms : List (Atom α)) : List α → Option (List α × List α)
  | [] => (matchSeq atoms []).map ([], ·)
  | c :: s =>
      match matchSeq atoms (c :: s) with
      | some rest => some ([], rest)
      | none => (cut atoms s).map fun (pre, rest) => (c :: pre, rest)

/-- The fields between the first `n` matches. -/
def fields (atoms : List (Atom α)) : Nat → List α → List (List α)
  | 0, s => [s]
  | n + 1, s =>
      match cut atoms s with
      | some (pre, rest) => pre :: fields atoms n rest
      | none => [s]

/-- `split(/atoms/, s)` for a pattern that no empty text matches: the
number of matches is at most that of the characters. -/
def split [DecidableEq α] (atoms : List (Atom α)) (s : List α) : List (List α) :=
  if s = [] then [] else (fields atoms s.length s).rdropWhile (· = [])

/-! ## Cutting -/

variable {atoms : List (Atom α)} {x s t : List α}

/-- The leftmost match is the first one there is. -/
theorem cut_append (hx : ∀ y, y <:+ x → y ≠ [] → matchSeq atoms (y ++ s) = none)
    (hs : matchSeq atoms s = some t) : cut atoms (x ++ s) = some (x, t) := by
  induction x with
  | nil =>
      cases s with
      | nil => simp [cut, hs]
      | cons c s => simp [cut, hs]
  | cons c x ih =>
      have hc : matchSeq atoms (c :: (x ++ s)) = none :=
        hx (c :: x) (List.suffix_refl _) (by simp)
      have hrest := ih fun y hy => hx y (hy.trans (List.suffix_cons ..))
      rw [List.cons_append, cut, hc, hrest]
      rfl

theorem cut_eq_none (hx : ∀ y, y <:+ x → matchSeq atoms y = none) : cut atoms x = none := by
  induction x with
  | nil => simp [cut, hx [] (List.suffix_refl _)]
  | cons c x ih =>
      have hrest := ih fun y hy => hx y (hy.trans (List.suffix_cons ..))
      rw [cut, hx (c :: x) (List.suffix_refl _), hrest]
      rfl

/-- Texts with something between them. -/
def weave (x : List α) (rest : List (List α × List α)) : List α :=
  x ++ rest.flatMap fun r => r.1 ++ r.2

theorem weave_cons (x w y : List α) (rest : List (List α × List α)) :
    weave x ((w, y) :: rest) = x ++ (w ++ weave y rest) := by
  simp [weave]

/-! ## Stretches with marks -/

variable {p : α → Bool} {mark : α} {k : Nat}

/-- All there is of a class in a row. -/
theorem star_all (s : List α) : star p (matchSeq []) s = some (s.dropWhile p) := by
  induction s with
  | nil => rfl
  | cons c s ih =>
      rw [star]
      split
      · rename_i hc
        rw [ih, List.dropWhile_cons_of_pos hc]
        rfl
      · rename_i hc
        rw [List.dropWhile_cons_of_neg hc]
        rfl

variable [DecidableEq α]

/-- A stretch of `p` with at least `k` marks in it: `p* mark p* ... mark p*`. -/
def runs (p : α → Bool) (mark : α) : Nat → List (Atom α)
  | 0 => [.star p]
  | k + 1 => .star p :: .one (· = mark) :: runs p mark k

/-- The marks in the stretch a text starts with. -/
def marks (p : α → Bool) (mark : α) (s : List α) : Nat := (s.takeWhile p).count mark

theorem marks_cons_of_neg {c : α} (hc : ¬ p c = true) (s : List α) : marks p mark (c :: s) = 0 := by
  rw [marks, List.takeWhile_cons_of_neg hc, List.count_nil]

theorem marks_cons_of_pos {c : α} (hc : p c = true) (s : List α) :
    marks p mark (c :: s) = marks p mark s + if c = mark then 1 else 0 := by
  rw [marks, List.takeWhile_cons_of_pos hc, List.count_cons, marks]
  simp only [beq_iff_eq]

/-- The match takes the whole stretch, if there are marks enough. -/
theorem matchSeq_runs (hmark : p mark = true) (k : Nat) (s : List α) :
    matchSeq (runs p mark k) s = if k ≤ marks p mark s then some (s.dropWhile p) else none := by
  induction k generalizing s with
  | zero =>
      rw [if_pos (Nat.zero_le _)]
      exact star_all s
  | succ k ih =>
      have hstar : matchSeq (runs p mark (k + 1)) s
          = star p (matchSeq (.one (· = mark) :: runs p mark k)) s := rfl
      rw [hstar]
      induction s with
      | nil => rfl
      | cons c s ihs =>
          have hone : matchSeq (.one (· = mark) :: runs p mark k) (c :: s)
              = if c = mark then matchSeq (runs p mark k) s else none := by
            simp [matchSeq]
          rw [star, hone, ih]
          by_cases hc : p c = true
          · rw [if_pos hc, ihs rfl, marks_cons_of_pos hc, List.dropWhile_cons_of_pos hc]
            -- the star gives a mark back only if there are too few behind it
            by_cases hmany : k + 1 ≤ marks p mark s
            · rw [if_pos hmany, Option.some_or,
                if_pos (hmany.trans (Nat.le_add_right ..))]
            · rw [if_neg hmany, Option.none_or]
              split
              · simp only [Nat.add_le_add_iff_right]
              · exact (if_neg hmany).symm
          · have hne : c ≠ mark := by
              rintro rfl
              exact hc hmark
            rw [if_neg hc, if_neg hne, marks_cons_of_neg hc, if_neg (by omega)]

/-- The stretch a text starts with is the same whatever comes behind the
first character that is not in it. -/
theorem marks_append {y : List α} (hy : ∃ c ∈ y, ¬ p c = true) (s : List α) :
    marks p mark (y ++ s) = marks p mark y := by
  rw [marks, List.takeWhile_append, if_neg, marks]
  intro hlength
  obtain ⟨c, hc, hpc⟩ := hy
  have hall : y.takeWhile p = y := (List.takeWhile_prefix p).eq_of_length hlength
  exact hpc (List.takeWhile_eq_self_iff.mp hall c hc)

/-- A stretch, and a text that starts with none. -/
theorem stretch_append {w : List α} (hw : ∀ c ∈ w, p c = true) (hs : ∀ c ∈ s.head?, ¬ p c = true) :
    marks p mark (w ++ s) = w.count mark ∧ (w ++ s).dropWhile p = s := by
  have htake : s.takeWhile p = [] := by
    cases s with
    | nil => rfl
    | cons c s => exact List.takeWhile_cons_of_neg (hs c rfl)
  have hdrop : s.dropWhile p = s := by
    cases s with
    | nil => rfl
    | cons c s => exact List.dropWhile_cons_of_neg (hs c rfl)
  rw [marks, List.takeWhile_append_of_pos hw, List.dropWhile_append_of_pos hw, htake, hdrop,
    List.append_nil]
  exact ⟨rfl, rfl⟩

/-! ## Pieces and what is between them -/

/-- A text that is left in one piece: it starts and ends outside the
stretches, and none of its own has `k` marks. -/
structure Solid (p : α → Bool) (mark : α) (k : Nat) (x : List α) : Prop where
  ne : x ≠ []
  head : ∀ c ∈ x.head?, ¬ p c = true
  last : ∀ c ∈ x.getLast?, ¬ p c = true
  few : ∀ y, y <:+ x → marks p mark y < k

/-- Between two marks of a stretch is a line of nothing but `p`. -/
theorem marks_lt_two (hlines : ∀ l ∈ x.splitOn mark, ∃ c ∈ l, ¬ p c = true) {y : List α}
    (hy : y <:+ x) : marks p mark y < 2 := by
  by_contra hmany
  rw [Nat.not_lt, marks] at hmany
  have hfirst : mark ∈ y.takeWhile p := List.count_pos_iff.mp (by omega)
  obtain ⟨u, rest, hu, hnone⟩ := List.eq_append_cons_of_mem hfirst
  have hsecond : mark ∈ rest := by
    rw [hu, List.count_append, List.count_cons_self, List.count_eq_zero.mpr hnone] at hmany
    exact List.count_pos_iff.mp (by omega)
  obtain ⟨v, w, rfl, hv⟩ := List.eq_append_cons_of_mem hsecond
  obtain ⟨pre, rfl⟩ := hy
  have hsplit : pre ++ y = (pre ++ u) ++ mark :: (v ++ mark :: (w ++ y.dropWhile p)) := by
    conv_lhs => rw [← List.takeWhile_append_dropWhile (p := p) (l := y), hu]
    simp
  have hline : v ∈ (pre ++ y).splitOn mark := by
    rw [hsplit, List.splitOn_append_cons_self, List.splitOn_append_cons_self,
      List.splitOn_eq_singleton hv]
    simp
  obtain ⟨c, hc, hpc⟩ := hlines v hline
  have htake : c ∈ y.takeWhile p := by simp [hu, hc]
  exact hpc (List.mem_takeWhile_imp htake)

/-- What cuts. -/
structure Gap (p : α → Bool) (mark : α) (k : Nat) (w : List α) : Prop where
  all : ∀ c ∈ w, p c = true
  count : k ≤ w.count mark

theorem Solid.head_weave (hx : Solid p mark k x) (rest : List (List α × List α)) :
    ∀ c ∈ (weave x rest).head?, ¬ p c = true := by
  intro c hc
  rw [weave, List.head?_append_of_ne_nil _ hx.ne] at hc
  exact hx.head c hc

/-- Inside a piece nothing matches. -/
theorem Solid.no_match (hmark : p mark = true) (hx : Solid p mark k x) {y : List α} (hy : y <:+ x)
    (hne : y ≠ []) (s : List α) : matchSeq (runs p mark k) (y ++ s) = none := by
  have hout : ∃ c ∈ y, ¬ p c = true := by
    refine ⟨y.getLast hne, List.getLast_mem hne, hx.last _ ?_⟩
    obtain ⟨pre, rfl⟩ := hy
    rw [List.getLast?_append_of_ne_nil _ hne, List.getLast?_eq_some_getLast hne]
    rfl
  rw [matchSeq_runs hmark, marks_append hout, if_neg (Nat.not_le_of_lt (hx.few y hy))]

theorem cut_solid (hmark : p mark = true) (hk : 0 < k) (hx : Solid p mark k x) :
    cut (runs p mark k) x = none := by
  refine cut_eq_none fun y hy => ?_
  cases y with
  | nil =>
      rw [matchSeq_runs hmark]
      exact if_neg (Nat.not_le_of_lt hk)
  | cons c y =>
      have h := hx.no_match hmark hy (List.cons_ne_nil c y) []
      rwa [List.append_nil] at h

theorem cut_gap (hmark : p mark = true) (hx : Solid p mark k x) {w : List α} (hw : Gap p mark k w)
    (hs : ∀ c ∈ s.head?, ¬ p c = true) : cut (runs p mark k) (x ++ (w ++ s)) = some (x, s) := by
  refine cut_append (fun y hy hne => hx.no_match hmark hy hne _) ?_
  obtain ⟨hcount, hdrop⟩ : marks p mark (w ++ s) = w.count mark ∧ (w ++ s).dropWhile p = s :=
    stretch_append hw.all hs
  rw [matchSeq_runs hmark, hcount, hdrop, if_pos hw.count]

theorem fields_weave (hmark : p mark = true) (hk : 0 < k) {rest : List (List α × List α)}
    (hx : Solid p mark k x) (hrest : ∀ r ∈ rest, Gap p mark k r.1 ∧ Solid p mark k r.2) {n : Nat}
    (hn : rest.length ≤ n) : fields (runs p mark k) n (weave x rest) = x :: rest.map (·.2) := by
  induction rest generalizing x n with
  | nil =>
      have hweave : weave x [] = x := List.append_nil x
      rw [hweave]
      cases n with
      | zero => rfl
      | succ n =>
          rw [fields, cut_solid hmark hk hx]
          rfl
  | cons r rest ih =>
      obtain ⟨w, y⟩ := r
      have hw : Gap p mark k w := (hrest (w, y) (List.mem_cons_self ..)).1
      have hy : Solid p mark k y := (hrest (w, y) (List.mem_cons_self ..)).2
      obtain ⟨n, rfl⟩ : ∃ m, n = m + 1 := ⟨n - 1, by simp at hn; omega⟩
      have hfields := ih hy (fun r hr => hrest r (List.mem_cons_of_mem _ hr)) (Nat.le_of_succ_le_succ hn)
      rw [weave_cons, fields, cut_gap hmark hx hw (hy.head_weave rest)]
      dsimp only
      rw [hfields]
      rfl

theorem length_le_weave (hk : 0 < k) {rest : List (List α × List α)}
    (hrest : ∀ r ∈ rest, Gap p mark k r.1) (x : List α) : rest.length ≤ (weave x rest).length := by
  induction rest generalizing x with
  | nil => exact Nat.zero_le _
  | cons r rest ih =>
      have hgap := (hrest r (List.mem_cons_self ..)).count
      have hcount := List.count_le_length (a := mark) (l := r.1)
      have hlength := ih (fun r hr => hrest r (List.mem_cons_of_mem _ hr)) r.2
      simp only [weave, List.flatMap_cons, List.length_append, List.length_cons] at hlength ⊢
      omega

/-- The pieces come back. -/
theorem split_weave (hmark : p mark = true) (hk : 0 < k) {rest : List (List α × List α)}
    (hx : Solid p mark k x) (hrest : ∀ r ∈ rest, Gap p mark k r.1 ∧ Solid p mark k r.2) :
    split (runs p mark k) (weave x rest) = x :: rest.map (·.2) := by
  have hne : weave x rest ≠ [] := by simp [weave, hx.ne]
  have hlength := length_le_weave hk (fun r hr => (hrest r hr).1) x
  have hsolid : ∀ y ∈ x :: rest.map (·.2), y ≠ [] := by
    intro y hy
    rcases List.mem_cons.mp hy with rfl | hy
    · exact hx.ne
    · obtain ⟨r, hr, rfl⟩ := List.mem_map.mp hy
      exact (hrest r hr).2.ne
  rw [split, if_neg hne, fields_weave hmark hk hx hrest hlength]
  refine List.rdropWhile_eq_self_iff.mpr fun hl => ?_
  simpa using hsolid _ (List.getLast_mem hl)

/-- The first field is not empty where the text starts outside the
stretches, and it goes on as far as no match begins. -/
theorem split_head (hmark : p mark = true) (hk : 0 < k) {a c : α} (ha : ¬ p a = true)
    (hc : marks p mark (c :: s) < k) :
    ∃ f fs, split (runs p mark k) (a :: c :: s) = (a :: c :: f) :: fs := by
  have hfirst : matchSeq (runs p mark k) (a :: c :: s) = none := by
    rw [matchSeq_runs hmark, marks_cons_of_neg ha, if_neg (Nat.not_le_of_lt hk)]
  have hsecond : matchSeq (runs p mark k) (c :: s) = none := by
    rw [matchSeq_runs hmark, if_neg (Nat.not_le_of_lt hc)]
  have hfields : ∃ f fs, fields (runs p mark k) (a :: c :: s).length (a :: c :: s)
      = (a :: c :: f) :: fs := by
    rw [List.length_cons, fields, cut, hfirst, cut, hsecond]
    cases cut (runs p mark k) s with
    | none => exact ⟨s, [], rfl⟩
    | some r => exact ⟨r.1, _, rfl⟩
  obtain ⟨f, fs, hfields⟩ := hfields
  rw [split, if_neg (by simp), hfields]
  have hleft : ((a :: c :: f) :: fs).rdropWhile (· = []) ≠ [] := by
    simp [List.rdropWhile_eq_nil_iff]
  obtain ⟨g, gs, hg⟩ := List.exists_cons_of_ne_nil hleft
  obtain ⟨rest, hrest⟩ := List.rdropWhile_prefix (decide <| · = []) (l := (a :: c :: f) :: fs)
  rw [hg, List.cons_append, List.cons.injEq] at hrest
  exact ⟨f, gs, by rw [hg, hrest.1]⟩

end Regex
