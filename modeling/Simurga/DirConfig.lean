import Simurga.Pages
import Mathlib.Logic.Function.Basic

/-!
# Configuration files

One `db.conf` and two readers: `DirConfig` (`httpservice.cpp`), made of
`trim` and `find`, and the loop of `connect_db` (`Simurga.pm`), a regular
expression anchored at both ends. Each has a form of line that sets a key
(`parseLine_iff`, `scriptLine_iff`), and the last line of its form counts
(`lastOf_settings`). So the readers agree on a key when the last lines of
the two forms carry one value (`agree_iff`), as they do when the lines that
set the key are of the form that both share (`plain_iff`, `agree_of_plain`).
-/

namespace Simurga

/-! ## The readers -/

/-- The lines of a file, without their newlines. -/
def lines (content : Bytes) : List Bytes := content.splitOn '\n'.toUInt8

/-- The data of a config: of two lines with one key the later one counts. -/
def settings (read : Bytes → Option (Bytes × Bytes)) (lines : List Bytes) : Bytes → Option Bytes :=
  lines.foldl (fun data line =>
    match read line with
    | some (key, value) => Function.update data key (some value)
    | none => data) fun _ => none

/-- `DirConfig`. -/
structure DirConfig where
  exists_ : Bool
  data : Bytes → Option Bytes

namespace DirConfig

/-- The body of the loop in the constructor. -/
def parseLine (line : Bytes) : Option (Bytes × Bytes) :=
  let line := trim line
  if line = [] ∨ line.head? = some '#'.toUInt8 then none
  else
    match find "=" line 0 with
    | none => none
    | some pos => some (trim (line.take pos), trim (line.drop (pos + 1)))

/-- The constructor, on the content of the file if it can be opened. -/
def load : Option Bytes → DirConfig
  | some content => { exists_ := true, data := settings parseLine (lines content) }
  | none => { exists_ := false, data := fun _ => none }

def get (config : DirConfig) (key : Bytes) : Bytes := (config.data key).getD []

end DirConfig

/-- `\w` of a byte. -/
def isWordByte (c : UInt8) : Bool := isLetter c || Decimal.isDigit c || c == '_'.toUInt8

/-- `$line =~ /^([\w\d_]+)\s*=\s*([^\s]+)$/`; `\s` is white space as in
`isSpace`. -/
def scriptLine (line : Bytes) : Option (Bytes × Bytes) :=
  let key := line.takeWhile isWordByte
  match (line.dropWhile isWordByte).dropWhile isSpace with
  | [] => none
  | c :: rest =>
      let value := rest.dropWhile isSpace
      if c = '='.toUInt8 ∧ key ≠ [] ∧ value ≠ [] ∧ value.all (fun d => !isSpace d) then
        some (key, value)
      else none

/-- `$config` behind the loop of `connect_db`; a key that is missing counts
as empty. -/
def scriptConfig (content key : Bytes) : Bytes :=
  (settings scriptLine (lines content) key).getD []

/-- The keys that both sides read. -/
def dbKeys : List Bytes :=
  [bytes "host", bytes "user", bytes "passwd", bytes "db", bytes "port", bytes "unix_socket"]

/-! ## The forms of a line -/

/-- Blanks of `trim`. -/
def Blank (s : Bytes) : Prop := ∀ c ∈ s, isBlank c = true

/-- White space of `\s`. -/
def Space (s : Bytes) : Prop := ∀ c ∈ s, isSpace c = true

/-- A line that sets `key` for the server: blanks may stand anywhere around
the key and the value, and the value may be empty. -/
def ServerForm (key value line : Bytes) : Prop :=
  ∃ b₀ b₁ b₂ b₃, Blank b₀ ∧ Blank b₁ ∧ Blank b₂ ∧ Blank b₃ ∧ trim value = value
    ∧ line = b₀ ++ key ++ b₁ ++ '='.toUInt8 :: b₂ ++ value ++ b₃

/-- A line that sets `key` for the scripts: white space stands around the
`=` only, and the value has none. -/
def ScriptForm (key value line : Bytes) : Prop :=
  ∃ s₁ s₂, Space s₁ ∧ Space s₂ ∧ value ≠ [] ∧ (∀ c ∈ value, isSpace c = false)
    ∧ line = key ++ s₁ ++ '='.toUInt8 :: s₂ ++ value

/-- A key is a word. -/
structure IsKey (key : Bytes) : Prop where
  ne_nil : key ≠ []
  word : ∀ c ∈ key, isWordByte c = true

theorem isKey_of_mem_dbKeys : ∀ key ∈ dbKeys, IsKey key := by
  have h : ∀ key ∈ dbKeys, key ≠ [] ∧ ∀ c ∈ key, isWordByte c = true := by decide +kernel
  exact fun key hkey => ⟨(h key hkey).1, (h key hkey).2⟩

section Form

variable {key value line : Bytes}

theorem isWordByte_spec {c : UInt8} (h : isWordByte c = true) :
    isBlank c = false ∧ isSpace c = false ∧ c ≠ '='.toUInt8 ∧ c ≠ '#'.toUInt8 := by
  have hall := forall_byte (p := fun c => isWordByte c = true →
    isBlank c = false ∧ isSpace c = false ∧ c ≠ '='.toUInt8 ∧ c ≠ '#'.toUInt8) (by decide +kernel)
  exact hall c h

theorem IsKey.not_mem (h : IsKey key) {c : UInt8} (hc : isWordByte c = false) : c ∉ key :=
  fun hmem => by
    rw [h.word c hmem] at hc
    cases hc

theorem IsKey.trimmed (h : IsKey key) : trim key = key := by
  refine (Search.trim_eq_self_iff h.ne_nil).mpr ⟨?_, ?_⟩
  · simp [(isWordByte_spec (h.word _ (List.head_mem h.ne_nil))).1]
  · simp [(isWordByte_spec (h.word _ (List.getLast_mem h.ne_nil))).1]

theorem equals_not_mem_blank {s : Bytes} (h : Blank s) : '='.toUInt8 ∉ s := fun hmem =>
  absurd (h _ hmem) (by decide)

/-- What is left of a line in the form of the server when it is trimmed. -/
theorem trim_serverForm (hkey : IsKey key) {b₀ b₂ b₃ : Bytes} (h₀ : Blank b₀) (b₁ : Bytes)
    (h₂ : Blank b₂) (h₃ : Blank b₃) (hvalue : trim value = value) :
    ∃ rest, trim (b₀ ++ key ++ b₁ ++ '='.toUInt8 :: b₂ ++ value ++ b₃)
        = key ++ b₁ ++ '='.toUInt8 :: rest ∧ trim rest = value := by
  have hhead : ∀ s, ¬ isBlank ((key ++ s).head (by simp [hkey.ne_nil])) = true := by
    intro s
    rw [List.head_append_of_ne_nil hkey.ne_nil]
    simp [(isWordByte_spec (hkey.word _ (List.head_mem hkey.ne_nil))).1]
  by_cases hne : value = []
  · subst hne
    refine ⟨[], ?_, rfl⟩
    have hinner : trim (key ++ b₁ ++ ['='.toUInt8]) = key ++ b₁ ++ ['='.toUInt8] :=
      Search.trim_append (by simp [hkey.ne_nil]) (hhead b₁) (by simp) (by decide)
    have htail : ∀ c ∈ b₂ ++ b₃, isBlank c = true := fun c hc =>
      (List.mem_append.mp hc).elim (h₂ c) (h₃ c)
    have hpad := Search.trim_pad h₀ htail hinner
    simpa [trim] using hpad
  · refine ⟨b₂ ++ value, ?_, ?_⟩
    · have hinner : trim (key ++ (b₁ ++ '='.toUInt8 :: b₂) ++ value)
          = key ++ (b₁ ++ '='.toUInt8 :: b₂) ++ value :=
        Search.trim_append (by simp [hkey.ne_nil]) (hhead _) hne hvalue
      have hpad := Search.trim_pad h₀ h₃ hinner
      simpa [trim] using hpad
    · have hpad := Search.trim_pad h₂ (r := []) (by simp) hvalue
      simpa [trim] using hpad

theorem parseLine_eq {t pre rest : Bytes} (htrim : trim line = t) (ht : t = pre ++ '='.toUInt8 :: rest)
    (hcomment : t.head? ≠ some '#'.toUInt8) (hpre : '='.toUInt8 ∉ pre) :
    DirConfig.parseLine line = some (trim pre, trim rest) := by
  have hpos : find "=" t 0 = some pre.length := by
    rw [ht]
    exact Search.find_singleton hpre rest
  have hne : t ≠ [] := by simp [ht]
  unfold DirConfig.parseLine
  simp only [htrim, hne, hcomment, or_self, if_false, hpos]
  rw [ht, List.take_left, Search.drop_append_cons]

theorem parseLine_iff (hkey : IsKey key) :
    DirConfig.parseLine line = some (key, value) ↔ ServerForm key value line := by
  constructor
  · intro h
    obtain ⟨l, r, hline, hl, hr⟩ := Search.exists_pad isBlank line
    change line = l ++ trim line ++ r at hline
    by_cases hmem : '='.toUInt8 ∈ trim line
    · obtain ⟨pre, rest, ht, hpre⟩ := List.eq_append_cons_of_mem hmem
      by_cases hcomment : (trim line).head? = some '#'.toUInt8
      · simp [DirConfig.parseLine, hcomment] at h
      · rw [parseLine_eq rfl ht hcomment hpre] at h
        obtain ⟨hpkey, hprest⟩ := Prod.mk.inj (Option.some.inj h)
        obtain ⟨l₁, r₁, hpad, hl₁, hr₁⟩ := Search.exists_pad isBlank pre
        obtain ⟨l₂, r₂, hpad', hl₂, hr₂⟩ := Search.exists_pad isBlank rest
        change pre = l₁ ++ trim pre ++ r₁ at hpad
        change rest = l₂ ++ trim rest ++ r₂ at hpad'
        rw [hpkey] at hpad
        rw [hprest] at hpad'
        refine ⟨l ++ l₁, r₁, l₂, r₂ ++ r, ?_, hr₁, hl₂, ?_, ?_, ?_⟩
        · exact fun c hc => (List.mem_append.mp hc).elim (hl c) (hl₁ c)
        · exact fun c hc => (List.mem_append.mp hc).elim (hr₂ c) (hr c)
        · rw [← hprest]
          exact Search.trim_trim isBlank rest
        · rw [hline, ht, hpad, hpad']
          simp
    · have hnone : find "=" (trim line) 0 = none := Search.find_singleton_none hmem
      unfold DirConfig.parseLine at h
      simp only [hnone, ite_self] at h
      cases h
  · rintro ⟨b₀, b₁, b₂, b₃, h₀, h₁, h₂, h₃, hvalue, rfl⟩
    obtain ⟨rest, htrim, hrest⟩ := trim_serverForm hkey h₀ b₁ h₂ h₃ hvalue
    obtain ⟨c, key', rfl⟩ := List.exists_cons_of_ne_nil hkey.ne_nil
    have hcomment : (c :: key' ++ b₁ ++ '='.toUInt8 :: rest).head? ≠ some '#'.toUInt8 := by
      simpa using (isWordByte_spec (hkey.word c (List.mem_cons_self ..))).2.2.2
    have hpre : '='.toUInt8 ∉ c :: key' ++ b₁ := by
      rw [List.mem_append, not_or]
      exact ⟨hkey.not_mem rfl, equals_not_mem_blank h₁⟩
    have htrimKey : trim (c :: key' ++ b₁) = c :: key' := by
      have hpad := Search.trim_pad (l := []) (by simp) h₁ hkey.trimmed
      simpa [trim] using hpad
    rw [parseLine_eq htrim rfl hcomment hpre, htrimKey, hrest]

/-- White space in front of a byte that is none. -/
theorem dropWhile_space {s : Bytes} (hs : Space s) {c : UInt8} (hc : isSpace c = false)
    (rest : Bytes) : (s ++ c :: rest).dropWhile isSpace = c :: rest := by
  rw [List.dropWhile_append_of_pos hs, List.dropWhile_cons_of_neg (by simp [hc])]

theorem scriptLine_iff (hkey : IsKey key) :
    scriptLine line = some (key, value) ↔ ScriptForm key value line := by
  constructor
  · intro h
    unfold scriptLine at h
    dsimp only at h
    split at h
    · cases h
    · rename_i c rest hrest
      split at h
      · rename_i hform
        obtain ⟨rfl, -, hne, hall⟩ := hform
        simp only [List.all_eq_true, Bool.not_eq_true'] at hall
        cases h
        refine ⟨(line.dropWhile isWordByte).takeWhile isSpace, rest.takeWhile isSpace,
          fun c hc => List.mem_takeWhile_imp hc, fun c hc => List.mem_takeWhile_imp hc, hne, hall, ?_⟩
        rw [List.append_assoc, List.append_assoc, List.cons_append, List.takeWhile_append_dropWhile,
          ← hrest, List.takeWhile_append_dropWhile, List.takeWhile_append_dropWhile]
      · cases h
  · rintro ⟨s₁, s₂, h₁, h₂, hne, hall, rfl⟩
    obtain ⟨d, value', rfl⟩ := List.exists_cons_of_ne_nil hne
    have hstop : ∀ rest, (s₁ ++ '='.toUInt8 :: rest).takeWhile isWordByte = []
        ∧ (s₁ ++ '='.toUInt8 :: rest).dropWhile isWordByte = s₁ ++ '='.toUInt8 :: rest := by
      intro rest
      cases s₁ with
      | nil => exact ⟨rfl, rfl⟩
      | cons c s =>
          have hc : ¬ isWordByte c = true := fun hword => by
            have hspace := h₁ c (List.mem_cons_self ..)
            rw [(isWordByte_spec hword).2.1] at hspace
            cases hspace
          exact ⟨List.takeWhile_cons_of_neg hc, List.dropWhile_cons_of_neg hc⟩
    have hline : key ++ s₁ ++ '='.toUInt8 :: s₂ ++ d :: value'
        = key ++ (s₁ ++ '='.toUInt8 :: (s₂ ++ d :: value')) := by simp
    have hd : isSpace d = false := hall d (List.mem_cons_self ..)
    unfold scriptLine
    rw [hline, List.takeWhile_append_of_pos hkey.word, List.dropWhile_append_of_pos hkey.word,
      (hstop _).1, (hstop _).2, List.append_nil, dropWhile_space h₁ (by decide)]
    simp only [dropWhile_space h₂ hd]
    rw [if_pos ⟨trivial, hkey.ne_nil, hne, by simpa using hall⟩]

/-- A line that both sides read alike: the key in the first column, blanks
around the `=` only, and a value with no white space in it. -/
def Plain (key value line : Bytes) : Prop :=
  ∃ b₁ b₂, Blank b₁ ∧ Blank b₂ ∧ value ≠ [] ∧ (∀ c ∈ value, isSpace c = false)
    ∧ line = key ++ b₁ ++ '='.toUInt8 :: b₂ ++ value

theorem isSpace_of_isBlank {c : UInt8} (h : isBlank c = true) : isSpace c = true := by
  have hall := forall_byte (p := fun c => isBlank c = true → isSpace c = true) (by decide +kernel)
  exact hall c h

theorem Blank.space {s : Bytes} (h : Blank s) : Space s := fun c hc => isSpace_of_isBlank (h c hc)

theorem equals_not_mem_space {s : Bytes} (h : Space s) : '='.toUInt8 ∉ s := fun hmem =>
  absurd (h _ hmem) (by decide)

/-- A value with no white space has nothing to trim. -/
theorem trim_of_no_space (hne : value ≠ []) (h : ∀ c ∈ value, isSpace c = false) :
    trim value = value := by
  have hstop : ∀ c ∈ value, ¬ isBlank c = true := fun c hc hblank => by
    have hspace := isSpace_of_isBlank hblank
    rw [h c hc] at hspace
    cases hspace
  exact (Search.trim_eq_self_iff hne).mpr
    ⟨hstop _ (List.head_mem hne), hstop _ (List.getLast_mem hne)⟩

theorem plain_iff (hkey : IsKey key) :
    Plain key value line ↔ ServerForm key value line ∧ ScriptForm key value line := by
  constructor
  · rintro ⟨b₁, b₂, h₁, h₂, hne, hall, rfl⟩
    refine ⟨⟨[], b₁, b₂, [], by simp [Blank], h₁, h₂, by simp [Blank],
      trim_of_no_space hne hall, by simp⟩, ⟨b₁, b₂, h₁.space, h₂.space, hne, hall, rfl⟩⟩
  · rintro ⟨⟨b₀, b₁, b₂, b₃, h₀, h₁, h₂, h₃, -, hline⟩, s₁, s₂, hs₁, hs₂, hne, hall, rfl⟩
    -- Both readers cut the line at its first `=`.
    have hcut : (key ++ s₁) ++ '='.toUInt8 :: (s₂ ++ value)
        = (b₀ ++ key ++ b₁) ++ '='.toUInt8 :: (b₂ ++ value ++ b₃) := by
      simpa using hline
    have hequals : '='.toUInt8 ∉ key := hkey.not_mem rfl
    have hfind := Search.find_singleton
      (show '='.toUInt8 ∉ key ++ s₁ by simp [hequals, equals_not_mem_space hs₁]) (s₂ ++ value)
    rw [hcut, Search.find_singleton
      (by simp [hequals, equals_not_mem_blank h₀, equals_not_mem_blank h₁])] at hfind
    obtain ⟨hpre, hpost⟩ := List.append_inj hcut (Option.some.inj hfind).symm
    have hpost := (List.cons.inj hpost).2
    have hb₀ : b₀ = [] := by
      cases b₀ with
      | nil => rfl
      | cons c b =>
          obtain ⟨d, key', rfl⟩ := List.exists_cons_of_ne_nil hkey.ne_nil
          have hcd : d = c := by simpa using (List.cons.inj hpre).1
          have hblank := h₀ c (List.mem_cons_self ..)
          rw [← hcd, (isWordByte_spec (hkey.word d (List.mem_cons_self ..))).1] at hblank
          cases hblank
    have hb₃ : b₃ = [] := by
      rcases List.eq_nil_or_concat b₃ with h | ⟨b, c, rfl⟩
      · exact h
      · obtain ⟨value', d, rfl⟩ := (List.eq_nil_or_concat value).resolve_left hne
        have hlast : (s₂ ++ value') ++ [d] = (b₂ ++ (value' ++ [d]) ++ b) ++ [c] := by
          simpa using hpost
        obtain ⟨-, hcd⟩ := List.append_inj' hlast rfl
        have hspace := h₃.space c (by simp)
        rw [← List.singleton_inj.mp hcd, hall d (by simp)] at hspace
        cases hspace
    subst hb₀ hb₃
    refine ⟨b₁, b₂, h₁, h₂, hne, hall, ?_⟩
    simpa using hline

end Form

/-! ## The last line of a form -/

/-- The value on the last line of a form; the empty one if there is none. -/
inductive LastOf (form : Bytes → Bytes → Prop) : List Bytes → Bytes → Prop where
  | none {lines : List Bytes} (h : ∀ line ∈ lines, ∀ value, ¬ form value line) : LastOf form lines []
  | last {before after : List Bytes} {line value : Bytes} (h : form value line)
      (hafter : ∀ line ∈ after, ∀ value, ¬ form value line) :
      LastOf form (before ++ line :: after) value

theorem lastOf_nil {form : Bytes → Bytes → Prop} {value : Bytes} :
    LastOf form [] value ↔ [] = value := by
  constructor
  · intro h
    generalize hlines : ([] : List Bytes) = lines at h
    cases h with
    | none => rfl
    | last => simp at hlines
  · rintro rfl
    exact .none (by simp)

theorem lastOf_concat {form : Bytes → Bytes → Prop} {lines : List Bytes} {line value : Bytes} :
    LastOf form (lines ++ [line]) value ↔
      form value line ∨ (∀ v, ¬ form v line) ∧ LastOf form lines value := by
  constructor
  · intro h
    generalize hall : lines ++ [line] = all at h
    cases h with
    | none h =>
        subst hall
        exact Or.inr ⟨h line (by simp), .none fun l hl => h l (by simp [hl])⟩
    | @last before after line' _ h hafter =>
        rcases List.eq_nil_or_concat after with rfl | ⟨after', line'', rfl⟩
        · obtain ⟨-, hline⟩ := List.append_inj' hall rfl
          cases hline
          exact Or.inl h
        · have hsplit : lines ++ [line] = (before ++ line' :: after') ++ [line''] := by
            simpa using hall
          obtain ⟨rfl, hline⟩ := List.append_inj' hsplit rfl
          cases hline
          exact Or.inr ⟨hafter line (by simp), .last h fun l hl => hafter l (by simp [hl])⟩
  · rintro (h | ⟨hline, h⟩)
    · exact .last h (by simp)
    · cases h with
      | none h =>
          refine .none fun l hl => ?_
          rcases List.mem_append.mp hl with hl | hl
          · exact h l hl
          · rw [List.mem_singleton.mp hl]
            exact hline
      | @last before after line' _ h hafter =>
          rw [List.append_assoc, List.cons_append]
          refine .last h fun l hl => ?_
          rcases List.mem_append.mp hl with hl | hl
          · exact hafter l hl
          · rw [List.mem_singleton.mp hl]
            exact hline

theorem lastOf_congr {form form' : Bytes → Bytes → Prop} {lines : List Bytes} {value : Bytes}
    (h : ∀ line ∈ lines, ∀ value, form value line ↔ form' value line) :
    LastOf form lines value ↔ LastOf form' lines value := by
  induction lines using List.reverseRecOn with
  | nil => rw [lastOf_nil, lastOf_nil]
  | append_singleton lines line ih =>
      have hline := h line (by simp)
      rw [lastOf_concat, lastOf_concat, ih fun l hl => h l (by simp [hl])]
      simp [hline]

/-- One more line either sets the key or leaves it alone. -/
theorem settings_concat (read : Bytes → Option (Bytes × Bytes)) (lines : List Bytes)
    (line key : Bytes) :
    (∃ value, read line = some (key, value) ∧ settings read (lines ++ [line]) key = some value)
      ∨ (∀ value, read line ≠ some (key, value))
        ∧ settings read (lines ++ [line]) key = settings read lines key := by
  unfold settings
  rw [List.foldl_append, List.foldl_cons, List.foldl_nil]
  cases hread : read line with
  | none => exact Or.inr ⟨by simp, rfl⟩
  | some entry =>
      obtain ⟨key', value⟩ := entry
      by_cases hkey : key' = key
      · subst hkey
        exact Or.inl ⟨value, rfl, Function.update_self ..⟩
      · refine Or.inr ⟨fun v h => hkey (Prod.mk.inj (Option.some.inj h)).1, ?_⟩
        exact Function.update_of_ne (Ne.symm hkey) ..

/-- What is read for a key is the value on the last line of the reader's form. -/
theorem lastOf_settings {read : Bytes → Option (Bytes × Bytes)} {key : Bytes}
    {form : Bytes → Bytes → Prop}
    (hform : ∀ {value line}, read line = some (key, value) ↔ form value line)
    (lines : List Bytes) (value : Bytes) :
    LastOf form lines value ↔ (settings read lines key).getD [] = value := by
  induction lines using List.reverseRecOn with
  | nil => exact lastOf_nil
  | append_singleton lines line ih =>
      rw [lastOf_concat]
      rcases settings_concat read lines line key with ⟨v, hread, hset⟩ | ⟨hread, hset⟩
      · rw [hset]
        constructor
        · rintro (h | ⟨h, -⟩)
          · have hv := hread.symm.trans (hform.mpr h)
            exact (Prod.mk.inj (Option.some.inj hv)).2
          · exact absurd (hform.mp hread) (h v)
        · rintro rfl
          exact Or.inl (hform.mp hread)
      · rw [hset, ← ih]
        have hnone : ∀ v, ¬ form v line := fun v h => hread v (hform.mpr h)
        simp [hnone]

/-! ## Agreement -/

theorem agree_iff {key : Bytes} (hkey : IsKey key) (content : Bytes) :
    (DirConfig.load (some content)).get key = scriptConfig content key ↔
      ∃ value, LastOf (ServerForm key) (lines content) value
        ∧ LastOf (ScriptForm key) (lines content) value := by
  constructor
  · intro h
    refine ⟨scriptConfig content key, ?_, ?_⟩
    · rw [← h]
      exact (lastOf_settings (parseLine_iff hkey) ..).mpr rfl
    · exact (lastOf_settings (scriptLine_iff hkey) ..).mpr rfl
  · rintro ⟨value, hserver, hscript⟩
    exact ((lastOf_settings (parseLine_iff hkey) ..).mp hserver).trans
      ((lastOf_settings (scriptLine_iff hkey) ..).mp hscript).symm

/-- A file in which every line that sets a key is plain is read alike. -/
theorem agree_of_plain {key : Bytes} (hkey : IsKey key) {content : Bytes}
    (h : ∀ line ∈ lines content, ∀ value,
      ServerForm key value line ∨ ScriptForm key value line → Plain key value line) :
    (DirConfig.load (some content)).get key = scriptConfig content key := by
  have hforms : ∀ line ∈ lines content, ∀ value,
      ServerForm key value line ↔ ScriptForm key value line := fun line hline value =>
    ⟨fun hs => ((plain_iff hkey).mp (h line hline value (Or.inl hs))).2,
      fun hs => ((plain_iff hkey).mp (h line hline value (Or.inr hs))).1⟩
  have hscript : LastOf (ScriptForm key) (lines content) (scriptConfig content key) :=
    (lastOf_settings (scriptLine_iff hkey) ..).mpr rfl
  exact (agree_iff hkey content).mpr ⟨_, (lastOf_congr hforms).mpr hscript, hscript⟩

/-- The server and the scripts read one value for each key of a file exactly
if the last line in the form of the server and the last one in the form of
the scripts carry the same. -/
theorem readers_agree_iff (content : Bytes) :
    (∀ key ∈ dbKeys, (DirConfig.load (some content)).get key = scriptConfig content key) ↔
      ∀ key ∈ dbKeys, ∃ value, LastOf (ServerForm key) (lines content) value
        ∧ LastOf (ScriptForm key) (lines content) value :=
  forall₂_congr fun key hkey => agree_iff (isKey_of_mem_dbKeys key hkey) content

/-- A password on a line that ends in a carriage return: the server trims it
off, the scripts find no value. -/
theorem readers_disagree :
    bytes "passwd" ∈ dbKeys
      ∧ (DirConfig.load (some (bytes "passwd=secret\r\n"))).get (bytes "passwd") = bytes "secret"
      ∧ scriptConfig (bytes "passwd=secret\r\n") (bytes "passwd") = [] := by
  decide +kernel

end Simurga
