import Simurga.DirConfig

/-!
# Written configuration files

What a reader of a configuration keeps of a file is the last value of each
key among the lines that it reads (`settings_eq_lookup`). `DirConfig` cuts
a line at its first `=` and trims both sides (`parseLine_cut`), so a file
written line by line (`Written`) reads back as what was written.
-/

namespace Simurga

/-! ## Lines -/

/-- `std::getline`: the line, and what is left of the file behind it; none
when the line ended at the end of the file. -/
def getline : Bytes → Bytes × Option Bytes
  | [] => ([], none)
  | c :: s =>
      if c = '\n'.toUInt8 then ([], some s)
      else (c :: (getline s).1, (getline s).2)

/-- `lines` is the loop over `getline` that stops at the end of the file. -/
theorem lines_eq_getline (content : Bytes) :
    lines content = (getline content).1 :: ((getline content).2.map lines).getD [] := by
  induction content with
  | nil => rfl
  | cons c s ih =>
      rw [getline, lines, List.splitOn_cons_eq_if_modifyHead, ← lines]
      by_cases hc : c = '\n'.toUInt8
      · rw [if_pos (by simpa using hc), if_pos hc]
        rfl
      · rw [if_neg (by simpa using hc), if_neg hc, ih]
        rfl

/-- The data is the last value of each key among the lines that are read. -/
theorem settings_eq_lookup (read : Bytes → Option (Bytes × Bytes)) (lines : List Bytes)
    (key : Bytes) : settings read lines key = (lines.filterMap read).reverse.lookup key := by
  induction lines using List.reverseRecOn with
  | nil => rfl
  | append_singleton lines line ih =>
      rw [List.filterMap_append, List.reverse_append, List.lookup_append]
      unfold settings at ih ⊢
      rw [List.foldl_append, List.foldl_cons, List.foldl_nil]
      cases hread : read line with
      | none => simpa [hread] using ih
      | some entry =>
          obtain ⟨key', value⟩ := entry
          by_cases hkey : key = key'
          · subst hkey
            simp [hread]
          · have hne : (key == key') = false := by simpa using hkey
            simpa [hread, List.lookup_cons, hne, Function.update_of_ne hkey] using ih

/-! ## One line -/

section Line

/-- A line is cut at its first `=`, unless it is a comment. -/
theorem parseLine_cut {pre : Bytes} (hpre : '='.toUInt8 ∉ pre)
    (hcomment : (pre.dropWhile isBlank).head? ≠ some '#'.toUInt8) (post : Bytes) :
    DirConfig.parseLine (pre ++ '='.toUInt8 :: post) = some (trim pre, trim post) := by
  have htrim : trim (pre ++ '='.toUInt8 :: post)
      = pre.dropWhile isBlank ++ '='.toUInt8 :: post.rdropWhile isBlank :=
    Search.trim_append_cons (by decide) pre post
  have hfront : trim (pre.dropWhile isBlank) = trim pre := by
    rw [trim, Search.trim, List.dropWhile_idempotent]
    rfl
  have hback : trim (post.rdropWhile isBlank) = trim post := by
    have h := Search.trim_append_blank (fun c hc => List.mem_rtakeWhile_imp hc)
      (post.rdropWhile isBlank) (r := post.rtakeWhile isBlank)
    rw [List.rdropWhile_append_rtakeWhile] at h
    exact h.symm
  rw [parseLine_eq htrim rfl ?_ fun hmem => hpre (List.dropWhile_subset _ hmem), hfront, hback]
  cases hhead : pre.dropWhile isBlank with
  | nil => exact fun h => absurd (Option.some.inj h) (by decide)
  | cons c s => simpa [hhead] using hcomment

theorem parseLine_blank {line : Bytes} (h : trim line = []) : DirConfig.parseLine line = none := by
  simp [DirConfig.parseLine, h]

theorem parseLine_comment {line : Bytes} (h : (trim line).head? = some '#'.toUInt8) :
    DirConfig.parseLine line = none := by
  simp [DirConfig.parseLine, h]

theorem parseLine_no_equals {line : Bytes} (h : '='.toUInt8 ∉ line) :
    DirConfig.parseLine line = none := by
  obtain ⟨l, r, hline, -, -⟩ := Search.exists_pad isBlank line
  have hmem : '='.toUInt8 ∉ trim line := fun hmem => h (by
    rw [hline]
    exact List.mem_append_left _ (List.mem_append_right _ hmem))
  have hnone : find "=" (trim line) 0 = none := Search.find_singleton_none hmem
  simp [DirConfig.parseLine, hnone]

/-- No blank at either end. -/
def Trimmed (s : Bytes) : Prop :=
  (∀ c ∈ s.head?, isBlank c = false) ∧ ∀ c ∈ s.getLast?, isBlank c = false

theorem Trimmed.trim_eq {s : Bytes} (h : Trimmed s) : trim s = s := by
  by_cases hne : s = []
  · rw [hne]
    rfl
  · refine (Search.trim_eq_self_iff hne).mpr ⟨?_, ?_⟩
    · simp [h.1 _ (List.head?_eq_some_head hne)]
    · simp [h.2 _ (List.getLast?_eq_some_getLast hne)]

/-- A key and a value that a line can carry. -/
structure IsSetting (key value : Bytes) : Prop where
  key_trimmed : Trimmed key
  value_trimmed : Trimmed value
  key_line : '\n'.toUInt8 ∉ key
  value_line : '\n'.toUInt8 ∉ value
  key_equals : '='.toUInt8 ∉ key
  key_comment : key.head? ≠ some '#'.toUInt8

/-- Spaces, tabs and carriage returns. -/
def Gap (s : Bytes) : Prop := ∀ c ∈ s, c = ' '.toUInt8 ∨ c = '\t'.toUInt8 ∨ c = '\r'.toUInt8

theorem Gap.blank {s : Bytes} (h : Gap s) : Blank s := fun c hc => by
  rcases h c hc with rfl | rfl | rfl <;> rfl

theorem Gap.line {s : Bytes} (h : Gap s) : '\n'.toUInt8 ∉ s := fun hmem => by
  rcases h _ hmem with h | h | h <;> cases h

/-- A line of a written file, with the setting on it if it has one. -/
inductive WrittenLine : Bytes → Option (Bytes × Bytes) → Prop where
  | setting {key value b₀ b₁ b₂ b₃ : Bytes} (h : IsSetting key value) (h₀ : Gap b₀) (h₁ : Gap b₁)
      (h₂ : Gap b₂) (h₃ : Gap b₃) :
      WrittenLine (b₀ ++ key ++ b₁ ++ '='.toUInt8 :: (b₂ ++ value ++ b₃)) (some (key, value))
  | blank {line : Bytes} (h : Gap line) : WrittenLine line none
  | comment {b rest : Bytes} (h : Gap b) (hrest : '\n'.toUInt8 ∉ rest) :
      WrittenLine (b ++ '#'.toUInt8 :: rest) none
  | noEquals {line : Bytes} (hline : '\n'.toUInt8 ∉ line) (h : '='.toUInt8 ∉ line) :
      WrittenLine line none

theorem WrittenLine.line {line : Bytes} {entry : Option (Bytes × Bytes)}
    (h : WrittenLine line entry) : '\n'.toUInt8 ∉ line := by
  cases h with
  | setting h h₀ h₁ h₂ h₃ =>
      simp [h₀.line, h₁.line, h₂.line, h₃.line, h.key_line, h.value_line,
        show '\n'.toUInt8 ≠ '='.toUInt8 by decide]
  | blank h => exact h.line
  | comment h hrest => simp [h.line, hrest, show '\n'.toUInt8 ≠ '#'.toUInt8 by decide]
  | noEquals hline => exact hline

/-- The reader takes the setting off a line, and nothing off the others. -/
theorem WrittenLine.parseLine {line : Bytes} {entry : Option (Bytes × Bytes)}
    (h : WrittenLine line entry) : DirConfig.parseLine line = entry := by
  cases h with
  | @setting key value b₀ b₁ b₂ b₃ h h₀ h₁ h₂ h₃ =>
      have hpre : '='.toUInt8 ∉ b₀ ++ key ++ b₁ := by
        simp [h.key_equals, equals_not_mem_blank h₀.blank, equals_not_mem_blank h₁.blank]
      have hcomment : ((b₀ ++ key ++ b₁).dropWhile isBlank).head? ≠ some '#'.toUInt8 := by
        rw [List.append_assoc, Search.dropWhile_append_of_all h₀.blank]
        cases key with
        | nil => rw [List.nil_append, List.dropWhile_eq_nil_iff.mpr h₁.blank]; simp
        | cons c key =>
            have hc : isBlank c = false := h.key_trimmed.1 c rfl
            rw [List.cons_append, List.dropWhile_cons_of_neg (by simp [hc])]
            exact h.key_comment
      rw [parseLine_cut hpre hcomment, trim, trim,
        Search.trim_pad h₀.blank h₁.blank h.key_trimmed.trim_eq,
        Search.trim_pad h₂.blank h₃.blank h.value_trimmed.trim_eq]
  | blank h =>
      have hpad := Search.trim_pad (s := []) (r := []) h.blank (by simp) rfl
      exact parseLine_blank (by simpa [trim] using hpad)
  | comment h _ =>
      refine parseLine_comment ?_
      rw [trim, Search.trim_append_cons (by decide), List.dropWhile_eq_nil_iff.mpr h.blank]
      rfl
  | noEquals _ h => exact parseLine_no_equals h

end Line

/-! ## Files -/

/-- The content of a file whose lines carry these settings in their order;
the newline of the last line may be missing. -/
inductive Written (pairs : List (Bytes × Bytes)) : Bytes → Prop where
  | file {ls : List (Bytes × Option (Bytes × Bytes))} (h : ∀ l ∈ ls, WrittenLine l.1 l.2)
      (hpairs : ls.filterMap Prod.snd = pairs) :
      Written pairs ((ls.map Prod.fst).flatMap (· ++ ['\n'.toUInt8]))
  | noNewline {ls : List (Bytes × Option (Bytes × Bytes))} (h : ∀ l ∈ ls, WrittenLine l.1 l.2)
      (hpairs : ls.filterMap Prod.snd = pairs) :
      Written pairs (['\n'.toUInt8].intercalate (ls.map Prod.fst))

section Written

variable {ls : List (Bytes × Option (Bytes × Bytes))}

theorem filterMap_parseLine (h : ∀ l ∈ ls, WrittenLine l.1 l.2) :
    (ls.map Prod.fst).filterMap DirConfig.parseLine = ls.filterMap Prod.snd := by
  rw [List.filterMap_map]
  exact List.filterMap_congr fun l hl => (h l hl).parseLine

theorem newline_not_mem (h : ∀ l ∈ ls, WrittenLine l.1 l.2) :
    ∀ line ∈ ls.map Prod.fst, '\n'.toUInt8 ∉ line := by
  intro line hline
  obtain ⟨l, hl, rfl⟩ := List.mem_map.mp hline
  exact (h l hl).line

/-- Lines with a newline behind each are lines with an empty one behind them. -/
theorem flatMap_newline (lines : List Bytes) :
    lines.flatMap (· ++ ['\n'.toUInt8]) = ['\n'.toUInt8].intercalate (lines ++ [[]]) := by
  induction lines with
  | nil => rfl
  | cons l lines ih =>
      rw [List.flatMap_cons, ih, List.cons_append, List.intercalate_cons_of_ne_nil (by simp)]

/-- The settings that the reader finds in a written file. -/
theorem Written.filterMap_lines {pairs : List (Bytes × Bytes)} {content : Bytes}
    (h : Written pairs content) : (lines content).filterMap DirConfig.parseLine = pairs := by
  cases h with
  | @file ls h hpairs =>
      have hlines : ∀ line ∈ ls.map Prod.fst ++ [[]], '\n'.toUInt8 ∉ line := by
        intro line hline
        rcases List.mem_append.mp hline with hline | hline
        · exact newline_not_mem h line hline
        · simp [List.mem_singleton.mp hline]
      have hempty : [([] : Bytes)].filterMap DirConfig.parseLine = [] := rfl
      rw [flatMap_newline, lines, List.splitOn_intercalate _ hlines (by simp), List.filterMap_append,
        hempty, List.append_nil, filterMap_parseLine h, hpairs]
  | @noNewline ls h hpairs =>
      cases ls with
      | nil =>
          rw [← hpairs]
          rfl
      | cons l ls =>
          rw [lines, List.splitOn_intercalate _ (newline_not_mem h) (by simp), filterMap_parseLine h,
            hpairs]

/-- A written file reads back: it is there, and each key has the value of its
last setting. -/
theorem load_written {pairs : List (Bytes × Bytes)} {content : Bytes} (h : Written pairs content) :
    DirConfig.load (some content) = { exists_ := true, data := fun key => pairs.reverse.lookup key } := by
  rw [DirConfig.load]
  congr 1
  funext key
  rw [settings_eq_lookup, h.filterMap_lines]

/-- A setting behind a comment, on a line that ends in a carriage return. -/
theorem load_written_sample :
    DirConfig.load (some (bytes "#x=0\n x=a=#\r"))
      = { exists_ := true, data := fun key => [(bytes "x", bytes "a=#")].reverse.lookup key } := by
  have hempty : Gap [] := by simp [Gap]
  have hspace : Gap (bytes " ") := fun c hc => Or.inl (List.mem_singleton.mp hc)
  have hreturn : Gap (bytes "\r") := fun c hc => Or.inr (Or.inr (List.mem_singleton.mp hc))
  have hletter : ∀ c ∈ some 'x'.toUInt8, isBlank c = false := fun c hc => Option.some.inj hc ▸ rfl
  have hvalue : Trimmed (bytes "a=#") :=
    ⟨fun c hc => Option.some.inj hc ▸ rfl, fun c hc => Option.some.inj hc ▸ rfl⟩
  have hentry : IsSetting (bytes "x") (bytes "a=#") :=
    { key_trimmed := ⟨hletter, hletter⟩
      value_trimmed := hvalue
      key_line := by decide
      value_line := by decide
      key_equals := by decide
      key_comment := by decide }
  have hcomment : WrittenLine (bytes "#x=0") none := .comment hempty (by decide)
  have hsetting : WrittenLine (bytes " x=a=#\r") (some (bytes "x", bytes "a=#")) :=
    .setting hentry hspace hempty hempty hreturn
  have hall : ∀ l ∈ [(bytes "#x=0", none), (bytes " x=a=#\r", some (bytes "x", bytes "a=#"))],
      WrittenLine l.1 l.2 := by
    rw [List.forall_mem_cons, List.forall_mem_singleton]
    exact ⟨hcomment, hsetting⟩
  exact load_written (.noNewline hall rfl)

end Written

end Simurga
