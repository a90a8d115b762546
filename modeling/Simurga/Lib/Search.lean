import Mathlib.Data.List.DropRight
import Mathlib.Data.List.Infix

/-!
# Searching a list for a pattern

The first occurrence of a pattern in a list, as `find` of the usual
string classes returns it: an index, counted from the start of the list
even when the search starts further in.

The parsers this is for cut their input at two-element brackets (`<%`,
`%>`). `indexOf?_pair` is the fact they rest on: when the two elements of
the bracket differ, a text free of the bracket stays free of it up to the
place where the bracket is appended, so the search stops exactly there.
The cutting of a list at both ends (`trim`) is here as well, with the
lemma that blanks around a trimmed list do not matter.
-/

namespace Search

variable {α : Type*}

/-! ## Pairs across a seam -/

/-- Where a pair can occur in an appended list: in one of the parts, or
with its first half ending the left part and its second half starting the
right one. -/
theorem pair_infix_append {a b : α} {x y : List α} (h : [a, b] <:+: x ++ y) :
    [a, b] <:+: x ∨ [a, b] <:+: y ∨ ([a] <:+ x ∧ [b] <+: y) := by
  rcases List.infix_append_iff_ne_nil.mp h with h | h | ⟨l₁, l₂, h₁, h₂, hl, hx, hy⟩
  · exact Or.inl h
  · exact Or.inr (Or.inl h)
  · obtain ⟨c, cs, rfl⟩ := List.exists_cons_of_ne_nil h₁
    obtain ⟨d, ds, rfl⟩ := List.exists_cons_of_ne_nil h₂
    simp only [List.cons_append, List.cons.injEq] at hl
    obtain ⟨rfl, hl⟩ := hl
    cases cs with
    | nil =>
        simp only [List.nil_append, List.cons.injEq] at hl
        obtain ⟨rfl, rfl⟩ := hl
        exact Or.inr (Or.inr ⟨hx, hy⟩)
    | cons e es => simp at hl

/-- Elements that are neither half of a pair make no pair, and complete
none, when they are put around a list. -/
theorem pair_not_infix_pad {a b : α} {l s r : List α} (hl : a ∉ l) (hr : b ∉ r)
    (hlb : b ∉ l) (hra : a ∉ r) (hs : ¬ [a, b] <:+: s) : ¬ [a, b] <:+: l ++ s ++ r := by
  intro h
  rcases pair_infix_append h with h | h | ⟨-, h⟩
  · rcases pair_infix_append h with h | h | ⟨h, -⟩
    · exact hlb (h.subset (by simp))
    · exact hs h
    · exact hl (h.subset (by simp))
  · exact hra (h.subset (by simp))
  · exact hr (h.subset (by simp))

/-! ## First occurrence -/

section Find

variable [DecidableEq α]

/-- Index of the first occurrence of `pat`. -/
def indexOf? (pat : List α) : List α → Option Nat
  | [] => if pat = [] then some 0 else none
  | c :: cs =>
      if pat.isPrefixOf (c :: cs) then some 0 else (indexOf? pat cs).map (· + 1)

/-- First occurrence of `pat` at or after `pos`, as an index into the
whole list. -/
def find (pat s : List α) (pos : Nat) : Option Nat :=
  (indexOf? pat (s.drop pos)).map (· + pos)

/-- What a successful search says: the list splits at the index. -/
theorem indexOf?_split {pat s : List α} {i : Nat} (h : indexOf? pat s = some i) :
    ∃ pre post, s = pre ++ pat ++ post ∧ pre.length = i := by
  induction s generalizing i with
  | nil =>
      simp only [indexOf?] at h
      split at h
      · next hp =>
          obtain rfl := Option.some.inj h
          exact ⟨[], [], by simp [hp], rfl⟩
      · cases h
  | cons c cs ih =>
      simp only [indexOf?] at h
      split at h
      · next hp =>
          obtain rfl := Option.some.inj h
          obtain ⟨post, hpost⟩ := List.isPrefixOf_iff_prefix.mp hp
          exact ⟨[], post, by simpa using hpost.symm, rfl⟩
      · obtain ⟨j, hj, rfl⟩ := Option.map_eq_some_iff.mp h
        obtain ⟨pre, post, rfl, rfl⟩ := ih hj
        exact ⟨c :: pre, post, by simp, by simp⟩

/-- There is no occurrence in front of the first one. -/
theorem indexOf?_first {pat s : List α} {i : Nat} (hne : pat ≠ []) (h : indexOf? pat s = some i) :
    ¬ pat <:+: s.take i := by
  induction s generalizing i with
  | nil => simpa using hne
  | cons c cs ih =>
      rw [indexOf?] at h
      split at h
      · cases h
        simpa using hne
      · rename_i hpre
        obtain ⟨j, hj, rfl⟩ := Option.map_eq_some_iff.mp h
        rw [List.take_succ_cons, List.infix_cons_iff, not_or]
        refine ⟨fun hcut => hpre (List.isPrefixOf_iff_prefix.mpr (hcut.trans ?_)), ih hj⟩
        exact (List.prefix_cons_inj c).mpr (List.take_prefix j cs)

/-- A search that fails leaves no occurrence. -/
theorem not_infix_of_indexOf? {pat s : List α} (hne : pat ≠ []) (h : indexOf? pat s = none) :
    ¬ pat <:+: s := by
  induction s with
  | nil => simpa using hne
  | cons c cs ih =>
      rw [indexOf?] at h
      split at h
      · cases h
      · rename_i hpre
        rw [List.infix_cons_iff, not_or]
        exact ⟨fun hcut => hpre (List.isPrefixOf_iff_prefix.mpr hcut), ih (Option.map_eq_none_iff.mp h)⟩

/-- A search for what is not there fails. -/
theorem indexOf?_eq_none {pat s : List α} (hne : pat ≠ []) (h : ¬ pat <:+: s) :
    indexOf? pat s = none := by
  induction s with
  | nil => simp [indexOf?, hne]
  | cons c cs ih =>
      have hpre : ¬ pat.isPrefixOf (c :: cs) = true := fun hp =>
        h (List.isPrefixOf_iff_prefix.mp hp).isInfix
      have htail : ¬ pat <:+: cs := fun ht => h (ht.trans (List.suffix_cons c cs).isInfix)
      simp [indexOf?, hpre, ih htail]

/-- A bracket of two different elements is found where it is appended to
a text that does not contain it: the text's last element cannot be the
first half of an earlier bracket, since what follows it is the first half
again. -/
theorem indexOf?_pair {a b : α} {pre : List α} (hab : a ≠ b) (post : List α)
    (h : ¬ [a, b] <:+: pre) : indexOf? [a, b] (pre ++ a :: b :: post) = some pre.length := by
  induction pre with
  | nil => simp [indexOf?]
  | cons c cs ih =>
      have htail : ¬ [a, b] <:+: cs := fun ht => h (ht.trans (List.suffix_cons c cs).isInfix)
      have hpre : ¬ [a, b].isPrefixOf (c :: cs ++ a :: b :: post) = true := by
        cases cs with
        | nil =>
            intro hp
            simp only [List.cons_append, List.nil_append, List.isPrefixOf, Bool.and_eq_true,
              beq_iff_eq] at hp
            exact hab hp.2.1.symm
        | cons d ds =>
            intro hp
            simp only [List.cons_append, List.isPrefixOf, Bool.and_eq_true, beq_iff_eq] at hp
            obtain ⟨rfl, rfl, -⟩ := hp
            exact h ⟨[], ds, by simp⟩
      rw [List.cons_append] at hpre ⊢
      simp [indexOf?, hpre, ih htail]

/-- Searching from the end of a prefix is searching the rest. -/
theorem find_append (pat pre s : List α) :
    find pat (pre ++ s) pre.length = (indexOf? pat s).map (· + pre.length) := by
  rw [find, List.drop_left]

/-- `indexOf?_pair` behind a prefix. -/
theorem find_pair {a b : α} (hab : a ≠ b) {s : List α} (h : ¬ [a, b] <:+: s)
    (pre post : List α) :
    find [a, b] (pre ++ (s ++ a :: b :: post)) pre.length = some (pre.length + s.length) := by
  rw [find_append, indexOf?_pair hab post h, Option.map_some, Nat.add_comm]

/-- What is found stays the first occurrence when more is appended. -/
theorem indexOf?_append_left {pat s : List α} {i : Nat} (h : indexOf? pat s = some i) (r : List α) :
    indexOf? pat (s ++ r) = some i := by
  induction s generalizing i with
  | nil =>
      rw [indexOf?] at h
      split at h
      · rename_i hpat
        cases h
        subst hpat
        cases r <;> simp [indexOf?]
      · cases h
  | cons c cs ih =>
      rw [indexOf?] at h
      rw [List.cons_append, indexOf?]
      split at h
      · rename_i hpre
        have hmore : pat <+: c :: (cs ++ r) :=
          (List.isPrefixOf_iff_prefix.mp hpre).trans (List.prefix_append (c :: cs) r)
        rw [if_pos (List.isPrefixOf_iff_prefix.mpr hmore)]
        exact h
      · rename_i hpre
        obtain ⟨j, hj, rfl⟩ := Option.map_eq_some_iff.mp h
        rw [ih hj]
        split
        · rename_i hmore
          -- an occurrence at the front would end behind `cs`, where one starts
          obtain ⟨pre, post, rfl, rfl⟩ := indexOf?_split hj
          have hpat := List.prefix_of_prefix_length_le (List.isPrefixOf_iff_prefix.mp hmore)
            (List.prefix_append (c :: (pre ++ pat ++ post)) r) (by simp; omega)
          exact absurd (List.isPrefixOf_iff_prefix.mpr hpat) hpre
        · rfl

/-- A bracket of two elements that a list does not contain is found in what
is appended, unless the seam completes one. -/
theorem indexOf?_pair_append {a b : α} {s r : List α} (h : indexOf? [a, b] s = none)
    (hseam : ¬ ([a] <:+ s ∧ [b] <+: r)) :
    indexOf? [a, b] (s ++ r) = (indexOf? [a, b] r).map (· + s.length) := by
  induction s with
  | nil => simp
  | cons c cs ih =>
      rw [indexOf?] at h
      split at h
      · cases h
      · rename_i hpre
        have htail : indexOf? [a, b] cs = none := Option.map_eq_none_iff.mp h
        have hseam' : ¬ ([a] <:+ cs ∧ [b] <+: r) := fun hcut =>
          hseam ⟨hcut.1.trans (List.suffix_cons c cs), hcut.2⟩
        have hmore : ¬ [a, b].isPrefixOf (c :: (cs ++ r)) = true := by
          rw [List.isPrefixOf_iff_prefix] at hpre ⊢
          cases cs with
          | nil =>
              intro hcut
              rw [List.nil_append, List.cons_prefix_cons] at hcut
              exact hseam ⟨by rw [hcut.1], hcut.2⟩
          | cons d ds =>
              intro hcut
              refine hpre (List.prefix_of_prefix_length_le hcut
                (List.prefix_append (c :: d :: ds) r) (by simp))
        rw [List.cons_append, indexOf?, if_neg hmore, ih htail hseam', Option.map_map]
        rfl

/-- `indexOf?_append_left` from a position on. -/
theorem find_append_left {pat s : List α} {pos i : Nat} (h : find pat s pos = some i)
    (hpos : pos ≤ s.length) (r : List α) : find pat (s ++ r) pos = some i := by
  obtain ⟨j, hj, rfl⟩ := Option.map_eq_some_iff.mp h
  rw [find, List.drop_append_of_le_length hpos, indexOf?_append_left hj r]
  rfl

/-- Behind a prefix everything is found that much further. -/
theorem find_append_right (pat pre s : List α) (pos : Nat) :
    find pat (pre ++ s) (pre.length + pos) = (find pat s pos).map (pre.length + ·) := by
  rw [find, List.drop_append, find, Option.map_map]
  simp only [List.drop_eq_nil_of_le (Nat.le_add_right _ _), List.nil_append, Nat.add_sub_cancel_left]
  congr 1
  funext i
  simp only [Function.comp_apply]
  omega

/-- `indexOf?_pair_append` from a position on. -/
theorem find_pair_append {a b : α} {s r : List α} {pos : Nat} (h : find [a, b] s pos = none)
    (hpos : pos ≤ s.length) (hseam : ¬ ([a] <:+ s ∧ [b] <+: r)) :
    find [a, b] (s ++ r) pos = (find [a, b] r 0).map (s.length + ·) := by
  have hnone : indexOf? [a, b] (s.drop pos) = none := Option.map_eq_none_iff.mp h
  have hcut : ¬ ([a] <:+ s.drop pos ∧ [b] <+: r) := fun hcut =>
    hseam ⟨hcut.1.trans (List.drop_suffix pos s), hcut.2⟩
  rw [find, List.drop_append_of_le_length hpos, indexOf?_pair_append hnone hcut, find, List.drop_zero,
    Option.map_map, Option.map_map]
  congr 1
  funext i
  simp only [Function.comp_apply, List.length_drop]
  omega

/-- A search cuts what is behind its start: no occurrence, one, and the rest. -/
theorem find_split {pat s : List α} {pos i : Nat} (hne : pat ≠ []) (h : find pat s pos = some i) :
    s.drop pos = (s.drop pos).take (i - pos) ++ (pat ++ s.drop (i + pat.length))
      ∧ ¬ pat <:+: (s.drop pos).take (i - pos) := by
  obtain ⟨j, hj, rfl⟩ := Option.map_eq_some_iff.mp h
  obtain ⟨pre, post, hsplit, rfl⟩ := indexOf?_split hj
  have hpost : s.drop (pre.length + pos + pat.length) = post := by
    have hdrop : s.drop (pre.length + pos + pat.length)
        = (s.drop pos).drop (pre.length + pat.length) := by
      rw [List.drop_drop]
      congr 1
      omega
    rw [hdrop, hsplit, ← List.length_append, List.drop_left]
  rw [Nat.add_sub_cancel, hpost]
  refine ⟨?_, indexOf?_first hne hj⟩
  rw [hsplit, List.append_assoc, List.take_left]

/-- A search that fails. -/
theorem not_infix_of_find {pat s : List α} {pos : Nat} (hne : pat ≠ []) (h : find pat s pos = none) :
    ¬ pat <:+: s.drop pos :=
  not_infix_of_indexOf? hne (Option.map_eq_none_iff.mp h)

/-- One element is found at its first place. -/
theorem find_singleton {c : α} {pre : List α} (h : c ∉ pre) (post : List α) :
    find [c] (pre ++ c :: post) 0 = some pre.length := by
  have hindex : indexOf? [c] (pre ++ c :: post) = some pre.length := by
    induction pre with
    | nil => simp [indexOf?]
    | cons d ds ih =>
        rw [List.mem_cons, not_or] at h
        have hd : ¬ [c].isPrefixOf (d :: (ds ++ c :: post)) = true := by
          simpa [List.isPrefixOf] using h.1
        rw [List.cons_append, indexOf?, if_neg hd, ih h.2]
        rfl
  rw [find, List.drop_zero, hindex]
  rfl

theorem find_singleton_none {c : α} {s : List α} (h : c ∉ s) : find [c] s 0 = none := by
  rw [find, List.drop_zero, indexOf?_eq_none (by simp) fun hin => h (hin.subset (by simp))]
  rfl

/-! ## Last occurrence -/

/-- Index of the last `c`. -/
def lastIndexOf? (c : α) : List α → Option Nat
  | [] => none
  | d :: s =>
      match lastIndexOf? c s with
      | some i => some (i + 1)
      | none => if d = c then some 0 else none

theorem lastIndexOf?_eq_none {c : α} {s : List α} : lastIndexOf? c s = none ↔ c ∉ s := by
  induction s with
  | nil => simp [lastIndexOf?]
  | cons d s ih =>
      rw [lastIndexOf?, List.mem_cons, not_or, ← ih]
      cases lastIndexOf? c s with
      | some i => simp
      | none => simp [eq_comm]

theorem lastIndexOf?_append {c : α} {post : List α} (h : c ∉ post) (pre : List α) :
    lastIndexOf? c (pre ++ c :: post) = some pre.length := by
  induction pre with
  | nil =>
      rw [List.nil_append, lastIndexOf?, lastIndexOf?_eq_none.mpr h]
      exact if_pos rfl
  | cons d pre ih =>
      rw [List.cons_append, lastIndexOf?, ih]
      rfl

/-- The list splits at the index, and no further `c` follows. -/
theorem lastIndexOf?_split {c : α} {s : List α} {i : Nat} (h : lastIndexOf? c s = some i) :
    ∃ pre post, s = pre ++ c :: post ∧ pre.length = i ∧ c ∉ post := by
  induction s generalizing i with
  | nil => cases h
  | cons d s ih =>
      rw [lastIndexOf?] at h
      cases hs : lastIndexOf? c s with
      | some j =>
          obtain ⟨pre, post, rfl, rfl, hpost⟩ := ih hs
          rw [hs] at h
          cases h
          exact ⟨d :: pre, post, rfl, rfl, hpost⟩
      | none =>
          rw [hs] at h
          dsimp only at h
          split at h
          · rename_i hd
            cases h
            exact ⟨[], s, by rw [hd]; rfl, rfl, lastIndexOf?_eq_none.mp hs⟩
          · cases h

end Find

/-- What stands behind the element a search stopped at. -/
theorem drop_append_cons (pre post : List α) (c : α) :
    (pre ++ c :: post).drop (pre.length + 1) = post := by
  rw [List.append_cons, List.drop_left' (by simp)]

/-! ## Cutting blanks at both ends -/

/-- Drop the elements satisfying `p` at both ends. -/
def trim (p : α → Bool) (s : List α) : List α := (s.dropWhile p).rdropWhile p

theorem dropWhile_append_of_all {p : α → Bool} {ws : List α} (hws : ∀ c ∈ ws, p c = true)
    (s : List α) : (ws ++ s).dropWhile p = s.dropWhile p := by
  induction ws with
  | nil => rfl
  | cons c cs ih =>
      have hc : p c = true := hws c (List.mem_cons_self ..)
      rw [List.cons_append, List.dropWhile_cons_of_pos hc]
      exact ih fun d hd => hws d (List.mem_cons_of_mem _ hd)

theorem rdropWhile_append_of_all {p : α → Bool} {ws : List α} (hws : ∀ c ∈ ws, p c = true)
    (s : List α) : (s ++ ws).rdropWhile p = s.rdropWhile p := by
  have hrev : ∀ c ∈ ws.reverse, p c = true := fun c hc => hws c (List.mem_reverse.mp hc)
  rw [List.rdropWhile, List.reverse_append, dropWhile_append_of_all hrev, List.rdropWhile]

/-- A list that is trimmed already neither starts nor ends with a blank. -/
theorem trim_eq_self_iff {p : α → Bool} {s : List α} (hne : s ≠ []) :
    trim p s = s ↔ ¬ p (s.head hne) ∧ ¬ p (s.getLast hne) := by
  obtain ⟨c, cs, rfl⟩ := List.exists_cons_of_ne_nil hne
  rw [List.head_cons]
  constructor
  · intro h
    have hc : ¬ p c = true := by
      intro hc
      -- dropping the head makes the list too short to come back
      rw [trim, List.dropWhile_cons_of_pos hc] at h
      have h1 := (List.rdropWhile_prefix (p := p) (l := cs.dropWhile p)).length_le
      have h2 := (List.dropWhile_suffix (l := cs) p).length_le
      rw [h, List.length_cons] at h1
      omega
    rw [trim, List.dropWhile_cons_of_neg hc] at h
    exact ⟨hc, List.rdropWhile_eq_self_iff.mp h hne⟩
  · rintro ⟨hc, hlast⟩
    rw [trim, List.dropWhile_cons_of_neg hc]
    exact List.rdropWhile_eq_self_iff.mpr fun _ => hlast

/-- Putting more in front of a trimmed list keeps its end. -/
theorem trim_append {p : α → Bool} {x s : List α} (hx : x ≠ []) (hhead : ¬ p (x.head hx))
    (hne : s ≠ []) (hs : trim p s = s) : trim p (x ++ s) = x ++ s := by
  refine (trim_eq_self_iff (by simp [hx])).mpr ⟨?_, ?_⟩
  · rwa [List.head_append_of_ne_nil hx]
  · rw [List.getLast_append_of_ne_nil (by simp [hx]) hne]
    exact ((trim_eq_self_iff hne).mp hs).2

/-- Blanks put around a list that is already trimmed are cut off again. -/
theorem trim_pad {p : α → Bool} {l s r : List α} (hl : ∀ c ∈ l, p c = true)
    (hr : ∀ c ∈ r, p c = true) (hs : trim p s = s) : trim p (l ++ s ++ r) = s := by
  by_cases hne : s = []
  · subst hne
    have hall : ∀ c ∈ l ++ r, p c = true := fun c hc =>
      (List.mem_append.mp hc).elim (hl c) (hr c)
    have h0 := dropWhile_append_of_all hall []
    simp only [List.append_nil, List.dropWhile_nil] at h0
    simp [trim, h0]
  · have hhead := ((trim_eq_self_iff hne).mp hs).1
    obtain ⟨c, cs, rfl⟩ := List.exists_cons_of_ne_nil hne
    rw [List.head_cons] at hhead
    rw [trim, List.dropWhile_cons_of_neg hhead] at hs
    rw [trim, List.append_assoc, dropWhile_append_of_all hl, List.cons_append,
      List.dropWhile_cons_of_neg hhead, ← List.cons_append, rdropWhile_append_of_all hr, hs]

theorem dropWhile_append_cons {p : α → Bool} {c : α} (hc : ¬ p c) (pre post : List α) :
    (pre ++ c :: post).dropWhile p = pre.dropWhile p ++ c :: post := by
  induction pre with
  | nil => exact List.dropWhile_cons_of_neg hc
  | cons d pre ih =>
      by_cases hd : p d
      · rw [List.cons_append, List.dropWhile_cons_of_pos hd, List.dropWhile_cons_of_pos hd, ih]
      · rw [List.cons_append, List.dropWhile_cons_of_neg hd, List.dropWhile_cons_of_neg hd,
          List.cons_append]

/-- An element that is no blank stops both cuts. -/
theorem trim_append_cons {p : α → Bool} {c : α} (hc : ¬ p c) (pre post : List α) :
    trim p (pre ++ c :: post) = pre.dropWhile p ++ c :: post.rdropWhile p := by
  have hrev : (pre.dropWhile p ++ c :: post).reverse = post.reverse ++ c :: (pre.dropWhile p).reverse := by
    simp
  rw [trim, dropWhile_append_cons hc, List.rdropWhile, hrev, dropWhile_append_cons hc, List.rdropWhile]
  simp

/-- Blanks behind the list are cut off with its own. -/
theorem trim_append_blank {p : α → Bool} {r : List α} (hr : ∀ c ∈ r, p c = true) (s : List α) :
    trim p (s ++ r) = trim p s := by
  rw [trim, trim, List.dropWhile_append]
  split
  · rename_i hall
    have hs : s.dropWhile p = [] := List.isEmpty_iff.mp hall
    rw [hs, List.dropWhile_eq_nil_iff.mpr hr]
  · exact rdropWhile_append_of_all hr _

/-- What is cut off are blanks. -/
theorem exists_pad (p : α → Bool) (s : List α) :
    ∃ l r, s = l ++ trim p s ++ r ∧ (∀ c ∈ l, p c = true) ∧ ∀ c ∈ r, p c = true := by
  refine ⟨s.takeWhile p, (s.dropWhile p).rtakeWhile p, ?_, fun c hc => List.mem_takeWhile_imp hc,
    fun c hc => List.mem_rtakeWhile_imp hc⟩
  rw [trim, List.append_assoc, List.rdropWhile_append_rtakeWhile, List.takeWhile_append_dropWhile]

theorem trim_trim (p : α → Bool) (s : List α) : trim p (trim p s) = trim p s := by
  by_cases hne : trim p s = []
  · rw [hne]
    rfl
  · refine (trim_eq_self_iff hne).mpr ⟨?_, List.rdropWhile_last_not p _ hne⟩
    obtain ⟨rest, hrest⟩ := List.rdropWhile_prefix (p := p) (l := s.dropWhile p)
    have hhead : (s.dropWhile p).head? = some ((trim p s).head hne) := by
      rw [← hrest, ← trim, List.head?_append_of_ne_nil _ hne, List.head?_eq_some_head]
    have hnot := List.head?_dropWhile_not p s
    rw [hhead] at hnot
    simpa using hnot

end Search
