import Simurga.ModelUri

/-!
# Colour names

A colour is named in the admin tool and asked for at the server.
`Simurga::Color::_check_name` is a regular expression over characters,
`parse_id` a loop over the bytes of their UTF-8 form. They agree on ASCII
and nowhere else (`checkName_parseId_iff`): `\w` goes beyond ASCII, and `$`
lets one newline pass.
-/

namespace Simurga

/-! ## `_check_name` -/

/-- `\w` and `\d` of the characters beyond ASCII. -/
structure UnicodeClasses where
  word : Char → Bool
  digit : Char → Bool

def isAscii (c : Char) : Bool := c.toNat < 128

namespace UnicodeClasses

/-- `\w`. -/
def isWord (u : UnicodeClasses) (c : Char) : Bool :=
  if isAscii c then c.isAlphanum || c = '_' else u.word c

/-- `\d`. -/
def isDigit (u : UnicodeClasses) (c : Char) : Bool :=
  if isAscii c then c.isDigit else u.digit c

/-- `[\w\d_\-]`. -/
def isNameChar (u : UnicodeClasses) (c : Char) : Bool :=
  u.isWord c || u.isDigit c || c = '_' || c = '-'

/-- `$name =~ /^[\w\d_\-]+$/`: `$` is the end, or in front of a newline
that is the last character. -/
def checkName (u : UnicodeClasses) (name : List Char) : Bool :=
  let body := if name.getLast? = some '\n' then name.dropLast else name
  body ≠ [] && body.all u.isNameChar

end UnicodeClasses

/-- The bytes of a character string. -/
def utf8 (s : List Char) : Bytes := s.flatMap String.utf8EncodeChar

/-! ## UTF-8 and the alphabet of `parse_id` -/

theorem utf8EncodeChar_ascii {c : Char} (h : isAscii c = true) :
    String.utf8EncodeChar c = [UInt8.ofNat c.toNat] := by
  have hv : c.val.toNat < 128 := by simpa [isAscii] using h
  rw [String.utf8EncodeChar]
  simp only [show c.val.toNat ≤ 127 by omega, ite_true]
  rfl

/-- A character beyond ASCII ends with a continuation byte. -/
theorem utf8EncodeChar_not_ascii {c : Char} (h : isAscii c = false) :
    ∃ b ∈ String.utf8EncodeChar c, 128 ≤ b.toNat := by
  have hv : 128 ≤ c.val.toNat := by simpa [isAscii] using h
  have hlast : UInt8.ofNat (c.val.toNat % 64 + 128) ∈ String.utf8EncodeChar c := by
    rw [String.utf8EncodeChar]
    simp only [show ¬ c.val.toNat ≤ 127 by omega, ite_false]
    split
    · simp
    · split <;> simp
  refine ⟨_, hlast, ?_⟩
  rw [UInt8.toNat_ofNat']
  omega

theorem toNat_lt_of_isColorByte {b : UInt8} (h : isColorByte b = true) : b.toNat < 128 := by
  have hall := forall_byte (p := fun b => isColorByte b = true → b.toNat < 128) (by decide +kernel)
  exact hall b h

/-- On ASCII the class of the expression is the alphabet of `parse_id`. -/
theorem isNameChar_ascii (u : UnicodeClasses) {c : Char} (h : isAscii c = true) :
    u.isNameChar c = isColorByte (UInt8.ofNat c.toNat) := by
  have hall : ∀ n : Fin 128, (((Char.ofNat n).isAlphanum || Char.ofNat n = '_'
      || (Char.ofNat n).isDigit || Char.ofNat n = '_' || Char.ofNat n = '-') : Bool)
      = isColorByte (UInt8.ofNat n) := by
    decide +kernel
  have hc := hall ⟨c.toNat, by simpa [isAscii] using h⟩
  rw [Char.ofNat_toNat] at hc
  rw [← hc, UnicodeClasses.isNameChar, UnicodeClasses.isWord, UnicodeClasses.isDigit, if_pos h,
    if_pos h]

theorem mem_utf8 {name : List Char} {c : Char} (h : c ∈ name) {b : UInt8}
    (hb : b ∈ String.utf8EncodeChar c) : b ∈ utf8 name :=
  List.mem_flatMap.mpr ⟨c, h, hb⟩

theorem utf8_ascii {name : List Char} (h : ∀ c ∈ name, isAscii c = true) :
    utf8 name = name.map fun c => UInt8.ofNat c.toNat := by
  induction name with
  | nil => rfl
  | cons c name ih =>
      rw [utf8, List.flatMap_cons, utf8EncodeChar_ascii (h c (List.mem_cons_self ..))]
      exact congrArg _ (ih fun d hd => h d (List.mem_cons_of_mem c hd))

/-- The bytes of the alphabet are the ASCII text they look like. -/
theorem utf8_decode {s : Bytes} (h : ∀ b ∈ s, b.toNat < 128) :
    (∀ c ∈ s.map (fun b => Char.ofNat b.toNat), isAscii c = true)
      ∧ utf8 (s.map fun b => Char.ofNat b.toNat) = s := by
  have hnat : ∀ b ∈ s, (Char.ofNat b.toNat).toNat = b.toNat := by
    intro b hb
    have hall : ∀ n : Fin 128, (Char.ofNat n).toNat = n := by decide +kernel
    exact hall ⟨b.toNat, h b hb⟩
  have hascii : ∀ c ∈ s.map (fun b => Char.ofNat b.toNat), isAscii c = true := by
    intro c hc
    obtain ⟨b, hb, rfl⟩ := List.mem_map.mp hc
    simpa [isAscii, hnat b hb] using h b hb
  refine ⟨hascii, ?_⟩
  rw [utf8_ascii hascii, List.map_map]
  refine (List.map_congr_left fun b hb => ?_).trans (List.map_id s)
  rw [Function.comp, hnat b hb, UInt8.ofNat_toNat, id]

/-! ## The two checks -/

/-- What `_check_name` accepts on ASCII without a newline at the end is
what `parse_id` accepts. -/
theorem checkName_ascii (u : UnicodeClasses) {name : List Char}
    (hascii : ∀ c ∈ name, isAscii c = true) (hlast : name.getLast? ≠ some '\n') :
    u.checkName name = true ↔ IsColorName (utf8 name) := by
  rw [UnicodeClasses.checkName, if_neg hlast, Bool.and_eq_true, decide_eq_true_eq,
    utf8_ascii hascii, List.all_eq_true]
  constructor
  · rintro ⟨hne, hall⟩
    refine ⟨by simpa using hne, fun b hb => ?_⟩
    obtain ⟨c, hc, rfl⟩ := List.mem_map.mp hb
    rw [← isNameChar_ascii u (hascii c hc)]
    exact hall c hc
  · rintro ⟨hne, hall⟩
    refine ⟨by simpa using hne, fun c hc => ?_⟩
    rw [isNameChar_ascii u (hascii c hc)]
    exact hall _ (List.mem_map_of_mem hc)

/-- The bytes of the alphabet come from ASCII, and not from a newline. -/
theorem ascii_of_isColorName {name : List Char} (h : IsColorName (utf8 name)) :
    (∀ c ∈ name, isAscii c = true) ∧ name.getLast? ≠ some '\n' := by
  constructor
  · intro c hc
    cases hascii : isAscii c with
    | true => rfl
    | false =>
        obtain ⟨b, hb, hge⟩ := utf8EncodeChar_not_ascii hascii
        have := toNat_lt_of_isColorByte (h.byte b (mem_utf8 hc hb))
        omega
  · intro hlast
    have hnewline : ('\n'.toUInt8) ∈ utf8 name :=
      mem_utf8 (List.mem_of_getLast? hlast) (by decide)
    exact absurd (h.byte _ hnewline) (by decide)

/-- A name that the admin tool accepts is read back by the server from an
article if and only if it is ASCII and does not end with a newline; and
each name that the server reads is one that the admin tool accepts. -/
theorem checkName_parseId_iff (u : UnicodeClasses) {name : List Char}
    (h : u.checkName name = true) (m : UInt32) :
    (parseId (modelId m (utf8 name)) = .ok (m, utf8 name)
      ↔ (∀ c ∈ name, isAscii c = true) ∧ name.getLast? ≠ some '\n')
    ∧ ∀ id m' color, parseId id = .ok (m', color) →
        ∃ name', utf8 name' = color ∧ u.checkName name' = true := by
  refine ⟨⟨fun hparse => ?_, ?_⟩, fun id m' color hparse => ?_⟩
  · obtain ⟨-, -, -, -, hcolor⟩ := parseId_ok hparse
    exact ascii_of_isColorName hcolor
  · rintro ⟨hascii, hlast⟩
    exact parseId_modelId m ((checkName_ascii u hascii hlast).mp h)
  · obtain ⟨-, -, -, -, hcolor⟩ := parseId_ok hparse
    obtain ⟨-, hutf8⟩ := utf8_decode fun b hb => toNat_lt_of_isColorByte (hcolor.byte b hb)
    rw [← hutf8] at hcolor
    obtain ⟨hascii, hlast⟩ := ascii_of_isColorName hcolor
    exact ⟨_, hutf8, (checkName_ascii u hascii hlast).mpr hcolor⟩

/-- `\w` of the Cyrillic letters. -/
def cyrillic : UnicodeClasses where
  word c := 0x410 ≤ c.toNat && c.toNat ≤ 0x44f
  digit _ := false

theorem checkName_parseId_iff_sample :
    (parseId (modelId 7 (utf8 ['r', 'e', 'd'])) = .ok (7, utf8 ['r', 'e', 'd'])
      ↔ (∀ c ∈ ['r', 'e', 'd'], isAscii c = true) ∧ ['r', 'e', 'd'].getLast? ≠ some '\n')
    ∧ ∀ id m' color, parseId id = .ok (m', color) →
        ∃ name', utf8 name' = color ∧ cyrillic.checkName name' = true :=
  checkName_parseId_iff cyrillic (by decide) 7

/-- A word in Cyrillic, and a newline at the end. -/
theorem checkName_not_parseId :
    (cyrillic.checkName ['с', 'и', 'н'] = true
      ∧ parseId (modelId 7 (utf8 ['с', 'и', 'н'])) = .error notFound)
    ∧ cyrillic.checkName ['r', 'e', 'd', '\n'] = true
      ∧ parseId (modelId 7 (utf8 ['r', 'e', 'd', '\n'])) = .error notFound := by
  decide +kernel

end Simurga
