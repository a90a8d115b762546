import Simurga.ModelUri
import Simurga.Lib.Perl

/-!
# Articles

An article is a model number, a hyphen and a colour name, as `item all`
prints it. The commands of `sbin/item` take it apart with `split`, the
server with `parse_id`. A colour name may have hyphens of its own; all
readers but `desc` leave them in the name (`readAs_iff`).
-/

namespace Simurga

/-- A Perl value is true unless it is undefined, empty or `0`. -/
def isTrue (value : Option Bytes) : Bool :=
  value ≠ none && value ≠ some [] && value ≠ some (bytes "0")

/-- How a command asks for its items. -/
inductive ItemQuery where
  | byModelAndColor (modelId color : Option Bytes)
  | byModel (modelId : Option Bytes)
deriving DecidableEq

/-- The items that `by_model_and_color` or `by_model` look for: `num` is
`+ 0` of a text. -/
def ItemQuery.Selects (num : Bytes → Nat) (m : Nat) (c : Bytes) : ItemQuery → Prop
  | .byModelAndColor modelId color => modelId.map num = some m ∧ color = some c
  | .byModel modelId => modelId.map num = some m

namespace ItemScript

/-- What `all` prints for an item. -/
def article (m : Nat) (c : Bytes) : Bytes := Decimal.digits m ++ bytes "-" ++ c

/-- The items of `desc`. -/
def desc (id : Bytes) : ItemQuery :=
  let fields := Perl.split '-'.toUInt8 id
  if isTrue fields[1]? then .byModelAndColor fields[0]? fields[1]? else .byModel fields[0]?

/-- The item of `sprice`. -/
def sprice (art : Bytes) : ItemQuery :=
  let fields := Perl.splitTwo '-'.toUInt8 art
  .byModelAndColor fields[0]? fields[1]?

/-- A line of `scsv`: its item and its special price. -/
def scsvLine (line : Bytes) : Option (ItemQuery × Option Bytes) :=
  let line := Perl.chomp '\n'.toUInt8 line
  if isTrue (some line) then
    let fields := Perl.splitTwo ';'.toUInt8 line
    let item := Perl.splitTwo '-'.toUInt8 (fields[0]?.getD [])
    some (.byModelAndColor item[0]? item[1]?, fields[1]?)
  else none

/-! ## What each reader makes of an article -/

variable {m : Nat} {c : Bytes}

theorem article_eq (m : Nat) (c : Bytes) :
    article m c = Decimal.digits m ++ '-'.toUInt8 :: c := by
  rw [article, List.append_assoc]
  rfl

theorem not_mem_digits {d : UInt8} (hd : Decimal.isDigit d = false) (m : Nat) :
    d ∉ Decimal.digits m := fun h => by
  rw [Decimal.digits_digit m d h] at hd
  cases hd

theorem sprice_article (m : Nat) (c : Bytes) :
    sprice (article m c) = .byModelAndColor (some (Decimal.digits m)) (some c) := by
  rw [sprice, article_eq, Perl.splitTwo_append (not_mem_digits (by decide) m)]
  rfl

/-- A line with the article, with or without a price, with or without its newline. -/
theorem scsvLine_article (hcolor : IsColorName c) {rest newline : Bytes}
    (hrest : rest = [] ∨ ∃ price, rest = ';'.toUInt8 :: price) (hline : '\n'.toUInt8 ∉ rest)
    (hnewline : newline = [] ∨ newline = ['\n'.toUInt8]) :
    (scsvLine (article m c ++ rest ++ newline)).map Prod.fst
      = some (.byModelAndColor (some (Decimal.digits m)) (some c)) := by
  have hart : ∀ {d : UInt8}, isColorByte d = false → d ∉ article m c := by
    intro d hd hmem
    rw [article_eq, List.mem_append, List.mem_cons] at hmem
    rcases hmem with hmem | rfl | hmem
    · rw [isColorByte_of_isDigit (Decimal.digits_digit m d hmem)] at hd
      cases hd
    · cases hd
    · rw [hcolor.byte d hmem] at hd
      cases hd
  have hne : article m c ≠ [] := by simp [article_eq]
  have hlen : 2 ≤ (article m c).length := by
    have := List.length_pos_iff.mpr (Decimal.digits_ne_nil m)
    simp [article_eq]
    omega
  have hchomp : Perl.chomp '\n'.toUInt8 (article m c ++ rest ++ newline) = article m c ++ rest := by
    rcases hnewline with rfl | rfl
    · rw [List.append_nil]
      refine Perl.chomp_of_not_mem ?_
      rw [List.mem_append, not_or]
      exact ⟨hart rfl, hline⟩
    · exact Perl.chomp_append ..
  have htrue : isTrue (some (article m c ++ rest)) = true := by
    have hzero : article m c ++ rest ≠ bytes "0" := by
      intro h
      have := congrArg List.length h
      simp [bytes] at this
      omega
    simp [isTrue, hne, hzero]
  have hfirst : (Perl.splitTwo ';'.toUInt8 (article m c ++ rest))[0]? = some (article m c) := by
    rcases hrest with rfl | ⟨price, rfl⟩
    · rw [List.append_nil, Perl.splitTwo_of_not_mem (hart rfl) hne]
      rfl
    · rw [Perl.splitTwo_append (hart rfl)]
      rfl
  rw [scsvLine, hchomp, if_pos htrue]
  dsimp only
  rw [hfirst, Option.getD_some, article_eq, Perl.splitTwo_append (not_mem_digits (by decide) m)]
  rfl

theorem splitOn_article (m : Nat) (c : Bytes) :
    (article m c).splitOn '-'.toUInt8 = Decimal.digits m :: c.splitOn '-'.toUInt8 := by
  rw [article_eq, List.splitOn_append_cons_self, List.splitOn_eq_singleton (not_mem_digits rfl m)]
  rfl

/-- `desc` takes the colour up to its first hyphen. -/
theorem desc_article_iff (hcolor : IsColorName c) (hzero : c ≠ bytes "0") :
    desc (article m c) = .byModelAndColor (some (Decimal.digits m)) (some c)
      ↔ '-'.toUInt8 ∉ c := by
  constructor
  · intro h hmem
    obtain ⟨pre, post, rfl, hpre⟩ := List.eq_append_cons_of_mem hmem
    unfold desc at h
    dsimp only at h
    split at h
    · have hfield := Perl.split_getElem? (ItemQuery.byModelAndColor.inj h).2
      rw [splitOn_article, List.splitOn_append_cons_self, List.splitOn_eq_singleton hpre] at hfield
      simp at hfield
    · cases h
  · intro hmem
    have hsplit : Perl.split '-'.toUInt8 (article m c) = [Decimal.digits m, c] := by
      have hfields : (article m c).splitOn '-'.toUInt8 = [Decimal.digits m, c] := by
        rw [splitOn_article, List.splitOn_eq_singleton hmem]
      rw [Perl.split_eq_splitOn, hfields]
      simp [hfields, hcolor.ne_nil]
    have htrue : isTrue (some c) = true := by simp [isTrue, hcolor.ne_nil, hzero]
    unfold desc
    rw [hsplit]
    exact if_pos htrue

theorem parseId_article (hcolor : IsColorName c) (hlt : m < 2 ^ 32) :
    parseId (article m c) = .ok (UInt32.ofNat m, c) := by
  have h := parseId_modelId (UInt32.ofNat m) hcolor
  rwa [modelId, toString, UInt32.toNat_ofNat', Nat.mod_eq_of_lt hlt] at h

/-! ## All readers -/

/-- Each reader takes the article apart into this number and this colour,
and no command looks for another item. -/
structure ReadAs (num : Bytes → Nat) (m : Nat) (c : Bytes) : Prop where
  desc : desc (article m c) = .byModelAndColor (some (Decimal.digits m)) (some c)
  sprice : sprice (article m c) = .byModelAndColor (some (Decimal.digits m)) (some c)
  scsv : ∀ {rest newline : Bytes}, (rest = [] ∨ ∃ price, rest = ';'.toUInt8 :: price) →
    '\n'.toUInt8 ∉ rest → (newline = [] ∨ newline = ['\n'.toUInt8]) →
    (scsvLine (article m c ++ rest ++ newline)).map Prod.fst
      = some (.byModelAndColor (some (Decimal.digits m)) (some c))
  server : ∃ m', parseId (article m c) = .ok (m', c) ∧ m'.toNat = m
  item : ∀ m' c', (ItemQuery.byModelAndColor (some (Decimal.digits m)) (some c)).Selects num m' c'
    ↔ m' = m ∧ c' = c

/-- The readers agree on an article if and only if the colour has no
hyphen; the number has to be one that the column holds. -/
theorem readAs_iff {num : Bytes → Nat} (hnum : ∀ n < 2 ^ 32, num (Decimal.digits n) = n)
    (hcolor : IsColorName c) (hzero : c ≠ bytes "0") :
    ReadAs num m c ↔ '-'.toUInt8 ∉ c ∧ m < 2 ^ 32 := by
  constructor
  · intro h
    obtain ⟨m', -, hm⟩ := h.server
    exact ⟨(desc_article_iff hcolor hzero).mp h.desc, hm ▸ m'.toNat_lt⟩
  · rintro ⟨hhyphen, hlt⟩
    exact {
      desc := (desc_article_iff hcolor hzero).mpr hhyphen
      sprice := sprice_article m c
      scsv := scsvLine_article hcolor
      server := ⟨_, parseId_article hcolor hlt, by
        rw [UInt32.toNat_ofNat', Nat.mod_eq_of_lt hlt]⟩
      item := fun m' c' => by
        simp [ItemQuery.Selects, hnum m hlt, eq_comm] }

theorem readAs_iff_sample :
    ReadAs Decimal.value 7 (bytes "dark_blue") ↔ '-'.toUInt8 ∉ bytes "dark_blue" ∧ 7 < 2 ^ 32 :=
  readAs_iff (fun n _ => Decimal.value_digits n) ⟨by decide +kernel, by decide +kernel⟩
    (by decide +kernel)

/-- `desc` changes the item of another colour, or all items of the model. -/
theorem desc_dark_blue :
    (desc (article 7 (bytes "dark-blue")) = .byModelAndColor (some (bytes "7")) (some (bytes "dark"))
      ∧ desc (article 7 (bytes "-blue")) = .byModel (some (bytes "7")))
    ∧ ¬ ReadAs Decimal.value 7 (bytes "dark-blue") := by
  refine ⟨by decide +kernel, fun h => ?_⟩
  have hdesc := h.desc
  revert hdesc
  decide +kernel

end ItemScript

end Simurga
