import Mathlib.Data.List.Infix

/-!
# Header blocks

A text of lines, each ended by a pair of characters that are not the same
(a carriage return and a line feed), and then an empty line: what protocols
put before a body. Where the block ends is a matter of the text alone
(`block_unique`), and whether a text is lines one after the other is a
matter of its parts (`isLines_append`).
-/

namespace Header

variable {α : Type*} {cr lf : α} {p : List α → Prop} {l : List α} {ls ls' : List (List α)}

/-- The text of a line: no end of a line in it. -/
def IsLine (cr lf : α) (l : List α) : Prop := ¬ [cr, lf] <:+: l

/-- Lines, each with its end. -/
def text (cr lf : α) (ls : List (List α)) : List α := ls.flatMap (· ++ [cr, lf])

/-- Lines, and the empty line behind them. -/
def block (cr lf : α) (ls : List (List α)) : List α := text cr lf ls ++ [cr, lf]

/-- Lines that can stand in a block, each with the property `p`. -/
def Good (cr lf : α) (p : List α → Prop) (ls : List (List α)) : Prop :=
  ∀ l ∈ ls, IsLine cr lf l ∧ l ≠ [] ∧ p l

/-- The text is such lines. -/
def IsLines (cr lf : α) (p : List α → Prop) (s : List α) : Prop :=
  ∃ ls, Good cr lf p ls ∧ s = text cr lf ls

@[simp] theorem text_nil : text cr lf [] = [] := rfl

@[simp] theorem text_cons : text cr lf (l :: ls) = l ++ cr :: lf :: text cr lf ls := by
  simp [text]

@[simp] theorem text_append : text cr lf (ls ++ ls') = text cr lf ls ++ text cr lf ls' :=
  List.flatMap_append ..

theorem Good.tail (h : Good cr lf p (l :: ls)) : Good cr lf p ls :=
  fun l' hl' => h l' (List.mem_cons_of_mem l hl')

theorem Good.append (h : Good cr lf p ls) (h' : Good cr lf p ls') : Good cr lf p (ls ++ ls') :=
  fun l hl => (List.mem_append.mp hl).elim (h l) (h' l)

/-- The first end of a line is that of the first line. -/
theorem IsLine.cut (hne : cr ≠ lf) (hl : IsLine cr lf l) {r a b : List α}
    (h : l ++ cr :: lf :: r = a ++ cr :: lf :: b) :
    (a = l ∧ b = r) ∨ ∃ a', a = l ++ cr :: lf :: a' ∧ r = a' ++ cr :: lf :: b := by
  rcases List.append_eq_append_iff.mp h with ⟨mid, ha, hr⟩ | ⟨mid, hlmid, hb⟩
  · rcases mid with _ | ⟨x, _ | ⟨y, a'⟩⟩
    · rw [List.append_nil] at ha
      simp only [List.nil_append, List.cons.injEq, true_and] at hr
      exact .inl ⟨ha, hr.symm⟩
    · simp only [List.singleton_append, List.cons.injEq] at hr
      exact absurd hr.2.1.symm hne
    · simp only [List.cons_append, List.cons.injEq] at hr
      obtain ⟨rfl, rfl, hr⟩ := hr
      exact .inr ⟨a', ha, hr⟩
  · rcases mid with _ | ⟨x, _ | ⟨y, mid⟩⟩
    · rw [List.append_nil] at hlmid
      simp only [List.nil_append, List.cons.injEq, true_and] at hb
      exact .inl ⟨hlmid.symm, hb⟩
    · simp only [List.singleton_append, List.cons.injEq] at hb
      exact absurd hb.2.1.symm hne
    · simp only [List.cons_append, List.cons.injEq] at hb
      obtain ⟨rfl, rfl, -⟩ := hb
      exact absurd ⟨a, mid, by simp [hlmid]⟩ hl

theorem IsLine.inj (hne : cr ≠ lf) (hl : IsLine cr lf l) {l' r r' : List α} (hl' : IsLine cr lf l')
    (h : l ++ cr :: lf :: r = l' ++ cr :: lf :: r') : l = l' ∧ r = r' := by
  rcases hl.cut hne h with ⟨rfl, rfl⟩ | ⟨a', rfl, -⟩
  · exact ⟨rfl, rfl⟩
  · exact absurd ⟨l, a', by simp⟩ hl'

theorem isLine_nil : IsLine cr lf [] := fun h => by simp at h

theorem isLine_of_not_mem (h : cr ∉ l) : IsLine cr lf l :=
  fun hpair => h (hpair.subset (List.mem_cons_self ..))

/-- A text has one block in front of it at most. -/
theorem block_unique (hne : cr ≠ lf) {p' : List α → Prop} {body body' : List α}
    (hls : Good cr lf p ls) (hls' : Good cr lf p' ls')
    (h : block cr lf ls ++ body = block cr lf ls' ++ body') : ls = ls' ∧ body = body' := by
  induction ls generalizing ls' with
  | nil =>
      cases ls' with
      | nil => exact ⟨rfl, List.append_cancel_left h⟩
      | cons l' ls' =>
          have hl' := hls' l' (List.mem_cons_self ..)
          obtain ⟨hempty, -⟩ := isLine_nil.inj hne hl'.1 (by simpa [block] using h)
          exact absurd hempty.symm hl'.2.1
  | cons l ls ih =>
      have hl := hls l (List.mem_cons_self ..)
      cases ls' with
      | nil =>
          obtain ⟨hempty, -⟩ := hl.1.inj hne isLine_nil (by simpa [block] using h)
          exact absurd hempty hl.2.1
      | cons l' ls' =>
          have hl' := hls' l' (List.mem_cons_self ..)
          have h : l ++ cr :: lf :: (block cr lf ls ++ body)
              = l' ++ cr :: lf :: (block cr lf ls' ++ body') := by
            simpa [block] using h
          obtain ⟨rfl, hrest⟩ := hl.1.inj hne hl'.1 h
          obtain ⟨rfl, hbody⟩ := ih hls.tail hls'.tail hrest
          exact ⟨rfl, hbody⟩

theorem isLines_line (hl : IsLine cr lf l) (hnonempty : l ≠ []) (hp : p l) :
    IsLines cr lf p (l ++ [cr, lf]) := by
  refine ⟨[l], ?_, by simp⟩
  intro l' hl'
  obtain rfl := List.mem_singleton.mp hl'
  exact ⟨hl, hnonempty, hp⟩

theorem IsLines.append {s t : List α} (hs : IsLines cr lf p s) (ht : IsLines cr lf p t) :
    IsLines cr lf p (s ++ t) := by
  obtain ⟨ls, hls, rfl⟩ := hs
  obtain ⟨ls', hls', rfl⟩ := ht
  exact ⟨ls ++ ls', hls.append hls', text_append.symm⟩

/-- At the end of a line the text may be cut. -/
theorem isLines_append (hne : cr ≠ lf) {a b : List α} :
    IsLines cr lf p (a ++ cr :: lf :: b)
      ↔ IsLines cr lf p (a ++ [cr, lf]) ∧ IsLines cr lf p b := by
  constructor
  · rintro ⟨ls, hls, h⟩
    induction ls generalizing a with
    | nil =>
        rw [text_nil] at h
        simp at h
    | cons l ls ih =>
        have hl := hls l (List.mem_cons_self ..)
        have hcut : l ++ cr :: lf :: text cr lf ls = a ++ cr :: lf :: b := by
          rw [h, text_cons]
        rcases hl.1.cut hne hcut with ⟨rfl, rfl⟩ | ⟨a', rfl, hrest⟩
        · exact ⟨isLines_line hl.1 hl.2.1 hl.2.2, ls, hls.tail, rfl⟩
        · obtain ⟨hfirst, hb⟩ := ih hls.tail hrest.symm
          have hline := isLines_line hl.1 hl.2.1 hl.2.2
          exact ⟨by simpa using hline.append hfirst, hb⟩
  · rintro ⟨ha, hb⟩
    simpa using ha.append hb

end Header
