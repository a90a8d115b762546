import Simurga.Pages
import Simurga.Lib.Perl
import Simurga.Lib.Flags

/-!
# Sizes

The word of a model's sizes, written by `string_to_size` (`Simurga.pm`) and
read by `size_to_string` of the scripts and of the server. A size of the
table has its bit set exactly if its name is entered
(`stringToSize_and`), and both readers join what their loops look for. What
the scripts read back is the normal form of a list (`size_normal_form`);
the loop of the server ends one size too early (`sizeToString_stringToSize`).
-/

namespace Simurga

/-! ## The scripts -/

/-- `$table` of `string_to_size`. -/
def sizeTable : List (Bytes × Nat) :=
  [(bytes "XS", 1 <<< 3), (bytes "S", 1 <<< 4), (bytes "M", 1 <<< 5), (bytes "L", 1 <<< 6),
    (bytes "XL", 1 <<< 7), (bytes "XXL", 1 <<< 8), (bytes "XXXL", 1 <<< 9)]

/-- `string_to_size`. -/
def stringToSize (str : Bytes) : Nat :=
  Flags.encode (sizeTable.lookup ·) (Perl.split ','.toUInt8 str)

/-- An operand of `&`: the nearest integer without a sign in 64 bits. -/
def nativeUnsigned (num : Nat) : Nat := min num (2 ^ 64 - 1)

/-- `size_to_string` of the scripts: the names by the place of their bits. -/
def scriptSizeToString (num : Nat) : Bytes :=
  let sizes := [bytes "XS", bytes "S", bytes "M", bytes "L", bytes "XL", bytes "XXL", bytes "XXXL"]
  (bytes ",").intercalate
    ((sizes.zipIdx.filter fun (_, i) => nativeUnsigned num &&& (1 <<< (3 + i)) ≠ 0).map Prod.fst)

/-- The sizes of a list: those of the table that are among its names. -/
def enteredSizes (str : Bytes) : List (Bytes × Nat) :=
  sizeTable.filter fun size => size.1 ∈ str.splitOn ','.toUInt8

section Table

theorem sizeTable_name_ne_nil : ∀ size ∈ sizeTable, size.1 ≠ [] := by decide

theorem lookup_of_mem : ∀ size ∈ sizeTable, sizeTable.lookup size.1 = some size.2 := by decide

/-- The sizes have one bit each. -/
theorem size_and_ne_zero : ∀ size ∈ sizeTable, ∀ size' ∈ sizeTable,
    size'.2 &&& size.2 ≠ 0 ↔ size' = size := by decide

theorem mem_of_lookup {name : Bytes} {bit : Nat} (h : sizeTable.lookup name = some bit) :
    (name, bit) ∈ sizeTable := by
  obtain ⟨l, r, hsplit, -⟩ := List.lookup_eq_some_iff.mp h
  rw [hsplit]
  simp

/-- A size has its bit set exactly if its name is entered. -/
theorem stringToSize_and (str : Bytes) {size : Bytes × Nat} (hsize : size ∈ sizeTable) :
    stringToSize str &&& size.2 ≠ 0 ↔ size.1 ∈ str.splitOn ','.toUInt8 := by
  rw [stringToSize, Flags.encode_and_ne_zero,
    ← Perl.mem_split_iff (sizeTable_name_ne_nil size hsize)]
  constructor
  · rintro ⟨name, hname, bit, hbit, hand⟩
    have heq := (size_and_ne_zero size hsize _ (mem_of_lookup hbit)).mp hand
    rw [← heq]
    exact hname
  · intro hname
    exact ⟨size.1, hname, size.2, lookup_of_mem size hsize,
      (size_and_ne_zero size hsize size hsize).mpr rfl⟩

/-- The names of the sizes that have their bits set. -/
theorem scriptSizeToString_eq (num : Nat) :
    scriptSizeToString num = (bytes ",").intercalate
      ((sizeTable.filter fun size => nativeUnsigned num &&& size.2 ≠ 0).map Prod.fst) := by
  have htable : sizeTable = ([bytes "XS", bytes "S", bytes "M", bytes "L", bytes "XL", bytes "XXL",
      bytes "XXXL"].zipIdx).map fun (name, i) => (name, 1 <<< (3 + i)) := rfl
  rw [htable, List.filter_map, List.map_map]
  rfl

/-! ## Bits -/

/-- The sizes of the table have the bits from 3 to 9. -/
theorem size_testBit {size : Bytes × Nat} (hsize : size ∈ sizeTable) (i : Nat) :
    size.2.testBit i = true ↔ size.2 = 2 ^ i := by
  have hpow : ∃ k, size.2 = 2 ^ k := by
    have hall : sizeTable.map Prod.snd = [3, 4, 5, 6, 7, 8, 9].map (2 ^ ·) := by decide
    have hmem : size.2 ∈ [3, 4, 5, 6, 7, 8, 9].map (2 ^ ·) := hall ▸ List.mem_map_of_mem hsize
    obtain ⟨k, -, hk⟩ := List.mem_map.mp hmem
    exact ⟨k, hk.symm⟩
  obtain ⟨k, hk⟩ := hpow
  rw [hk, Nat.testBit_two_pow, decide_eq_true_iff]
  exact ⟨fun h => by rw [h], fun h => Nat.pow_right_injective (Nat.le_refl 2) h⟩

theorem exists_size_iff (i : Nat) : (∃ size ∈ sizeTable, size.2 = 2 ^ i) ↔ 3 ≤ i ∧ i ≤ 9 := by
  have hall : sizeTable.map Prod.snd = [3, 4, 5, 6, 7, 8, 9].map (2 ^ ·) := by decide
  have hmem : (∃ size ∈ sizeTable, size.2 = 2 ^ i) ↔ 2 ^ i ∈ sizeTable.map Prod.snd :=
    List.mem_map.symm
  rw [hmem, hall, List.mem_map_of_injective (Nat.pow_right_injective (Nat.le_refl 2))]
  simp only [List.mem_cons, List.not_mem_nil, or_false]
  omega

/-- A bit of the word is that of a size that was entered. -/
theorem testBit_stringToSize (str : Bytes) (i : Nat) :
    (stringToSize str).testBit i = true
      ↔ ∃ size ∈ sizeTable, size.2 = 2 ^ i ∧ size.1 ∈ str.splitOn ','.toUInt8 := by
  rw [stringToSize, Flags.testBit_encode]
  constructor
  · rintro ⟨name, hname, bit, hbit, htest⟩
    have hsize := mem_of_lookup hbit
    exact ⟨(name, bit), hsize, (size_testBit hsize i).mp htest,
      (Perl.mem_split_iff (sizeTable_name_ne_nil _ hsize)).mp hname⟩
  · rintro ⟨size, hsize, hbit, hname⟩
    exact ⟨size.1, (Perl.mem_split_iff (sizeTable_name_ne_nil size hsize)).mpr hname, size.2,
      lookup_of_mem size hsize, (size_testBit hsize i).mpr hbit⟩

theorem stringToSize_lt (str : Bytes) : stringToSize str < 2 ^ 64 := by
  refine Nat.lt_pow_two_of_testBit _ fun i hi => ?_
  by_contra h
  obtain ⟨size, hsize, hbit, -⟩ := (testBit_stringToSize str i).mp (by simpa using h)
  have hrange := (exists_size_iff i).mp ⟨size, hsize, hbit⟩
  omega

theorem nativeUnsigned_of_lt {num : Nat} (h : num < 2 ^ 64) : nativeUnsigned num = num := by
  rw [nativeUnsigned]
  omega

/-- The scripts read back the sizes that were entered. -/
theorem scriptSizeToString_stringToSize (str : Bytes) :
    scriptSizeToString (stringToSize str)
      = (bytes ",").intercalate ((enteredSizes str).map Prod.fst) := by
  rw [scriptSizeToString_eq, nativeUnsigned_of_lt (stringToSize_lt str), enteredSizes]
  congr 2
  exact List.filter_congr fun size hsize => by simp only [stringToSize_and str hsize]

/-- The list that is written has the sizes whose bits are set. -/
theorem mem_scriptSizeToString (num : Nat) {size : Bytes × Nat} (hsize : size ∈ sizeTable) :
    size.1 ∈ (scriptSizeToString num).splitOn ','.toUInt8 ↔ nativeUnsigned num &&& size.2 ≠ 0 := by
  have hcomma : ∀ name ∈ (sizeTable.filter fun size => nativeUnsigned num &&& size.2 ≠ 0).map Prod.fst,
      ','.toUInt8 ∉ name := by
    intro name hname
    have hall : (sizeTable.map Prod.fst).all (fun name => !name.contains ','.toUInt8) = true := by decide
    obtain ⟨size, hsize, rfl⟩ := List.mem_map.mp hname
    have hone := List.all_eq_true.mp hall size.1 (List.mem_map_of_mem (List.mem_of_mem_filter hsize))
    simpa using hone
  have hinj : ∀ size' ∈ sizeTable, size'.1 = size.1 → size' = size := by
    intro size' hsize' hname
    have hbit := lookup_of_mem size' hsize'
    rw [hname, lookup_of_mem size hsize] at hbit
    exact Prod.ext hname (Option.some.inj hbit).symm
  rw [scriptSizeToString_eq]
  by_cases hnil : (sizeTable.filter fun size => nativeUnsigned num &&& size.2 ≠ 0).map Prod.fst = []
  · rw [hnil]
    have hnone := List.filter_eq_nil_iff.mp (List.map_eq_nil_iff.mp hnil) size hsize
    refine iff_of_false (fun hmem => ?_) (by simpa using hnone)
    exact sizeTable_name_ne_nil size hsize (List.mem_singleton.mp hmem)
  · rw [show bytes "," = [','.toUInt8] from rfl, List.splitOn_intercalate _ hcomma hnil]
    constructor
    · intro hmem
      obtain ⟨size', hsize', hname⟩ := List.mem_map.mp hmem
      obtain ⟨hsize', hand⟩ := List.mem_filter.mp hsize'
      rw [← hinj size' hsize' hname]
      simpa using hand
    · intro hand
      exact List.mem_map_of_mem (List.mem_filter.mpr ⟨hsize, by simpa using hand⟩)

/-- Written and read again a number keeps the bits from 3 to 9. -/
theorem testBit_stringToSize_scriptSizeToString (num i : Nat) :
    (stringToSize (scriptSizeToString num)).testBit i
      = (decide (3 ≤ i ∧ i ≤ 9) && (nativeUnsigned num).testBit i) := by
  rw [Bool.eq_iff_iff, testBit_stringToSize, Bool.and_eq_true, decide_eq_true_iff, ← exists_size_iff,
    ← Flags.and_two_pow_ne_zero]
  constructor
  · rintro ⟨size, hsize, hbit, hmem⟩
    have hand := (mem_scriptSizeToString num hsize).mp hmem
    rw [hbit] at hand
    exact ⟨⟨size, hsize, hbit⟩, hand⟩
  · rintro ⟨⟨size, hsize, hbit⟩, hand⟩
    exact ⟨size, hsize, hbit, (mem_scriptSizeToString num hsize).mpr (hbit ▸ hand)⟩

theorem stringToSize_scriptSizeToString_stringToSize (str : Bytes) :
    stringToSize (scriptSizeToString (stringToSize str)) = stringToSize str := by
  refine Nat.eq_of_testBit_eq fun i => ?_
  rw [testBit_stringToSize_scriptSizeToString, nativeUnsigned_of_lt (stringToSize_lt str)]
  cases hbit : (stringToSize str).testBit i with
  | false => simp
  | true =>
      obtain ⟨size, hsize, hpow, -⟩ := (testBit_stringToSize str i).mp hbit
      simpa using (exists_size_iff i).mp ⟨size, hsize, hpow⟩

theorem stringToSize_eq_iff (str str' : Bytes) :
    stringToSize str = stringToSize str' ↔ ∀ size ∈ sizeTable,
      (size.1 ∈ str.splitOn ','.toUInt8 ↔ size.1 ∈ str'.splitOn ','.toUInt8) := by
  constructor
  · intro h size hsize
    rw [← stringToSize_and str hsize, ← stringToSize_and str' hsize, h]
  · intro h
    refine Nat.eq_of_testBit_eq fun i => ?_
    rw [Bool.eq_iff_iff, testBit_stringToSize, testBit_stringToSize]
    exact exists_congr fun size => and_congr_right fun hsize => and_congr_right fun _ => h size hsize

/-- The sizes of a list in the order of the table are its normal form, and
the words of two lists are the same exactly if their sizes are. A number
that Perl takes as it is keeps its bits from 3 to 9; one that is too large
for `&` gets them all. -/
theorem size_normal_form :
    (∀ str, scriptSizeToString (stringToSize str)
      = (bytes ",").intercalate ((enteredSizes str).map Prod.fst))
    ∧ (∀ str str', stringToSize str = stringToSize str' ↔ ∀ size ∈ sizeTable,
        (size.1 ∈ str.splitOn ','.toUInt8 ↔ size.1 ∈ str'.splitOn ','.toUInt8))
    ∧ (∀ str, stringToSize (scriptSizeToString (stringToSize str)) = stringToSize str)
    ∧ (∀ num i, num < 2 ^ 64 → (stringToSize (scriptSizeToString num)).testBit i
        = (decide (3 ≤ i ∧ i ≤ 9) && num.testBit i))
    ∧ ∀ num i, 2 ^ 64 ≤ num →
        (stringToSize (scriptSizeToString num)).testBit i = decide (3 ≤ i ∧ i ≤ 9) := by
  refine ⟨scriptSizeToString_stringToSize, stringToSize_eq_iff,
    stringToSize_scriptSizeToString_stringToSize, fun num i hlt => ?_, fun num i hle => ?_⟩
  · rw [testBit_stringToSize_scriptSizeToString, nativeUnsigned_of_lt hlt]
  · have hmax : nativeUnsigned num = 2 ^ 64 - 1 := by
      rw [nativeUnsigned]
      omega
    rw [testBit_stringToSize_scriptSizeToString, hmax, Nat.testBit_two_pow_sub_one]
    by_cases hi : 3 ≤ i ∧ i ≤ 9
    · simp [hi, show i < 64 by omega]
    · simp [hi]

/-- The first number that is too large has none of the bits. -/
theorem size_bits_not_kept :
    (stringToSize (scriptSizeToString (2 ^ 64))).testBit 3 = true ∧ (2 ^ 64).testBit 3 = false := by
  decide +kernel

end Table

/-! ## The server -/

/-- The sizes and the ranges they stand for. -/
def sizeRanges : List (Bytes × Bytes) :=
  [(bytes "XS", bytes "38-40"), (bytes "S", bytes "42-44"), (bytes "M", bytes "44-46"),
    (bytes "L", bytes "46-48"), (bytes "XL", bytes "48-50"), (bytes "XXL", bytes "50-52"),
    (bytes "XXXL", bytes "52-54")]

/-- The ranges of the sizes among the names of a list. -/
def rangesOf (str : Bytes) (sizes : List (Bytes × Bytes)) : List Bytes :=
  (sizes.filter fun size => size.1 ∈ str.splitOn ','.toUInt8).map Prod.snd

/-- The cases of the `switch`, the one of `Size_XXXL` with them. -/
theorem sizeRange_table :
    sizeTable.map (fun size => (size.1, sizeRange (UInt32.ofNat size.2))) = sizeRanges := by decide

/-- The loop goes through the sizes of the table but the last. -/
theorem loopSizes_table : (sizeTable.take 6).map (fun size => UInt32.ofNat size.2) = loopSizes := by
  decide

theorem sizeToString_eq (sizes : UInt32) :
    sizeToString sizes
      = (bytes ", ").intercalate ((loopSizes.filter fun size => sizes &&& size ≠ 0).map sizeRange) := by
  have hall : loopSizes.all (fun size => sizeRange size ≠ []) = true := by decide
  have hrange : ∀ size ∈ loopSizes, sizeRange size ≠ [] := fun size hsize => by
    simpa using List.all_eq_true.mp hall size hsize
  have hloop : sizeToString sizes
      = Flags.joinLoop (bytes ", ") sizeRange (loopSizes.filter fun size => sizes &&& size ≠ 0) := by
    rw [sizeToString, Flags.joinLoop, List.foldl_filter]
    congr 1
    funext result size
    by_cases h : sizes &&& size = 0 <;> simp [h]
  rw [hloop, Flags.joinLoop_eq fun size hsize => hrange size (List.mem_of_mem_filter hsize)]

/-- The server shows the ranges of the sizes entered, up to `XXL`. -/
theorem sizeToString_stringToSize (str : Bytes) :
    sizeToString (UInt32.ofNat (stringToSize str))
      = (bytes ", ").intercalate (rangesOf str (sizeRanges.take 6)) := by
  have hbit : ∀ size ∈ sizeTable.take 6,
      (decide (UInt32.ofNat (stringToSize str) &&& UInt32.ofNat size.2 ≠ 0))
        = decide (size.1 ∈ str.splitOn ','.toUInt8) := by
    intro size hsize
    have hmem := List.mem_of_mem_take hsize
    have hsmall : ∀ size ∈ sizeTable, size.2 < 2 ^ 32 := by decide
    have hzero : UInt32.ofNat (stringToSize str) &&& UInt32.ofNat size.2 = 0
        ↔ stringToSize str &&& size.2 = 0 := by
      have hlt := Nat.lt_of_le_of_lt (Nat.and_le_right (n := stringToSize str)) (hsmall size hmem)
      rw [← UInt32.ofNat_and, ← UInt32.toNat_inj, UInt32.toNat_ofNat_of_lt' hlt]
      rfl
    rw [decide_eq_decide, Ne, hzero]
    exact stringToSize_and str hmem
  rw [sizeToString_eq, ← loopSizes_table, List.filter_map, List.map_map, rangesOf, ← sizeRange_table,
    ← List.map_take, List.filter_map, List.map_map]
  congr 2
  exact List.filter_congr hbit

/-- The sizes shown are the sizes entered exactly if `XXXL` is not among them. -/
theorem sizes_shown_iff (str : Bytes) :
    sizeToString (UInt32.ofNat (stringToSize str)) = (bytes ", ").intercalate (rangesOf str sizeRanges)
      ↔ bytes "XXXL" ∉ str.splitOn ','.toUInt8 := by
  have hsplit : rangesOf str sizeRanges = rangesOf str (sizeRanges.take 6)
      ++ rangesOf str [(bytes "XXXL", bytes "52-54")] := by
    rw [rangesOf, rangesOf, rangesOf, ← List.map_append, ← List.filter_append]
    rfl
  rw [sizeToString_stringToSize, hsplit]
  by_cases hmem : bytes "XXXL" ∈ str.splitOn ','.toUInt8
  · have hlast : rangesOf str [(bytes "XXXL", bytes "52-54")] = [bytes "52-54"] := by
      simp [rangesOf, hmem]
    -- one more range is more text
    refine iff_of_false (fun heq => ?_) (not_not_intro hmem)
    have hlen := congrArg List.length heq
    have hrange : 0 < (bytes "52-54").length := by decide
    rw [hlast] at hlen
    by_cases hne : rangesOf str (sizeRanges.take 6) = []
    · rw [hne, List.nil_append, List.intercalate_singleton] at hlen
      simp only [List.intercalate_nil, List.length_nil] at hlen
      omega
    · rw [Flags.intercalate_append_singleton _ hne, List.length_append, List.length_append] at hlen
      omega
  · have hlast : rangesOf str [(bytes "XXXL", bytes "52-54")] = [] := by
      simp [rangesOf, hmem]
    rw [hlast, List.append_nil]
    exact iff_of_true rfl hmem

/-- The largest size is entered and is not shown. -/
theorem sizes_not_shown :
    stringToSize (bytes "XXL,XXXL,XXL,-") = 768
      ∧ sizeToString (UInt32.ofNat (stringToSize (bytes "XXL,XXXL,XXL,-"))) = bytes "50-52"
      ∧ (bytes ", ").intercalate (rangesOf (bytes "XXL,XXXL,XXL,-") sizeRanges)
        = bytes "50-52, 52-54" := by
  decide +kernel

end Simurga
