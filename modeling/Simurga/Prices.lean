import Mathlib.Data.Nat.Cast.Field
import Mathlib.Tactic.NormNum
import Simurga.SpecialPrice

/-!
# The price on a page

A price on its way to a page: the hundredths of a `decimal(10, 2)` column,
the `unsigned int` of the views, the 32 bits of the result buffer, the
string of `price`. The last step loses nothing (`shows_price`), the one
before it the multiples of 2^32, so a price is shown as it is stored
exactly below 42949672.96 (`price_shown_iff`).
-/

namespace Simurga

/-- `s` is the number `amount`, without a fraction where that is whole, with
two digits of it elsewhere. -/
structure Shows (s : Bytes) (amount : ℚ) : Prop where
  number : Decimal.number s = some amount
  whole : (∃ n : ℕ, amount = n) → Decimal.fraction s = []
  cents : (¬ ∃ n : ℕ, amount = n) → (Decimal.fraction s).length = 2

theorem Shows.unique {s : Bytes} {amount amount' : ℚ} (h : Shows s amount) (h' : Shows s amount') :
    amount = amount' :=
  Option.some.inj (h.number.symm.trans h'.number)

theorem hundredths_whole_iff (n : ℕ) : (∃ m : ℕ, (n / 100 : ℚ) = m) ↔ n % 100 = 0 := by
  constructor
  · rintro ⟨m, hm⟩
    have hmul : (n : ℚ) = (m * 100 : ℕ) := by
      rw [div_eq_iff (by norm_num)] at hm
      rw [hm, Nat.cast_mul]
      norm_num
    have hnat : n = m * 100 := Nat.cast_injective hmul
    omega
  · intro h
    refine ⟨n / 100, ?_⟩
    rw [Nat.cast_div (Nat.dvd_of_mod_eq_zero h) (by norm_num)]
    norm_num

/-! ## The formatter -/

theorem price_whole {value : UInt32} (h : value.toNat % 100 = 0) :
    price value = Decimal.digits (value.toNat / 100) := by
  have hcent : value % 100 = 0 := UInt32.toNat_inj.mp (by simpa using h)
  rw [price, if_pos hcent, List.append_nil, toString]
  simp

theorem price_cents {value : UInt32} (h : value.toNat % 100 ≠ 0) :
    price value = Decimal.digits (value.toNat / 100)
      ++ Decimal.point :: Decimal.twoDigits (value.toNat % 100) := by
  have hcent : value % 100 ≠ 0 := fun hzero => h (by simpa using congrArg UInt32.toNat hzero)
  have hlt : value % 100 < 10 ↔ value.toNat % 100 < 10 := by
    rw [UInt32.lt_iff_toNat_lt]
    simp
  rw [price, if_neg hcent, toString, toString, Decimal.twoDigits]
  simp only [hlt, UInt32.toNat_div, UInt32.toNat_mod]
  rfl

/-- `price` shows the hundredths it is given. -/
theorem shows_price (value : UInt32) : Shows (price value) (value.toNat / 100) := by
  have hmod := hundredths_whole_iff value.toNat
  by_cases h : value.toNat % 100 = 0
  · have hdigits := Decimal.isDigits_digits (value.toNat / 100)
    rw [price_whole h]
    refine ⟨?_, fun _ => hdigits.fraction_eq, fun hnot => absurd (hmod.mpr h) hnot⟩
    rw [hdigits.number_eq, Decimal.value_digits,
      Nat.cast_div (Nat.dvd_of_mod_eq_zero h) (by norm_num)]
    norm_num
  · have hdigits := Decimal.isDigits_digits (value.toNat / 100)
    have hcents := Decimal.isDigits_twoDigits (value.toNat % 100)
    have hlength := Decimal.length_twoDigits (Nat.mod_lt value.toNat (by decide : 0 < 100))
    rw [price_cents h]
    refine ⟨?_, fun hwhole => absurd (hmod.mp hwhole) h, fun _ => ?_⟩
    · rw [hdigits.number_append hcents, hlength, Decimal.value_digits, Decimal.value_twoDigits]
      have hsplit : ((100 * (value.toNat / 100) + value.toNat % 100 : ℕ) : ℚ) = value.toNat := by
        rw [Nat.div_add_mod]
      rw [← hsplit]
      push_cast
      ring_nf
    · rw [hdigits.fraction_append, hlength]

/-! ## The pages -/

namespace CollectionDb

variable {collate : Bytes → Bytes} {db : CollectionDb collate}

/-- A page shows `s` for a price or special price of `cents` in the database. -/
inductive ShownFor (db : CollectionDb collate) : ℤ → Bytes → Prop
  | collectionPrice {r : ItemRow} {view : CollectionView} {s : Bytes} (hrow : r ∈ db.items.rows)
      (hview : db.collectionEntry r = some view) (hs : collectionItem view (bytes "price") = some s) :
      ShownFor db r.columns.priceRu s
  | collectionSpecial {r : ItemRow} {view : CollectionView} {cents : ℤ} {s : Bytes}
      (hrow : r ∈ db.items.rows) (hcents : r.columns.specialPriceRu = some cents)
      (hview : db.collectionEntry r = some view)
      (hs : collectionItem view (bytes "special_price") = some s) : ShownFor db cents s
  | modelPrice {r : ItemRow} {view : ModelView} {s : Bytes} (hrow : r ∈ db.items.rows)
      (hview : db.modelEntry r = some view)
      (hs : modelArguments view (bytes "price") = some (.string s)) :
      ShownFor db r.columns.priceRu s
  | modelSpecial {r : ItemRow} {view : ModelView} {cents : ℤ} {s : Bytes}
      (hrow : r ∈ db.items.rows) (hcents : r.columns.specialPriceRu = some cents)
      (hview : db.modelEntry r = some view)
      (hs : modelArguments view (bytes "special_price") = some (.string s)) : ShownFor db cents s

theorem collectionEntry_prices {r : ItemRow} {view : CollectionView}
    (h : db.collectionEntry r = some view) :
    view.price = viewPrice r.columns.priceRu
      ∧ view.specialPrice = r.columns.specialPriceRu.map viewPrice := by
  obtain ⟨model, -, h⟩ := Option.bind_eq_some_iff.mp h
  obtain ⟨color, -, h⟩ := Option.bind_eq_some_iff.mp h
  cases h
  exact ⟨rfl, rfl⟩

theorem modelEntry_prices {r : ItemRow} {view : ModelView} (h : db.modelEntry r = some view) :
    view.price = viewPrice r.columns.priceRu
      ∧ view.specialPrice = r.columns.specialPriceRu.map viewPrice := by
  obtain ⟨model, -, h⟩ := Option.bind_eq_some_iff.mp h
  obtain ⟨color, -, h⟩ := Option.bind_eq_some_iff.mp h
  cases h
  exact ⟨rfl, rfl⟩

end CollectionDb

theorem collectionItem_price (view : CollectionView) :
    collectionItem view (bytes "price") = some (price view.price) := by
  rw [collectionItem]
  cases view.specialPrice with
  | none => exact Function.update_self ..
  | some special => exact (Function.update_of_ne (by decide) ..).trans (Function.update_self ..)

theorem collectionItem_specialPrice (view : CollectionView) :
    collectionItem view (bytes "special_price") = view.specialPrice.map price := by
  rw [collectionItem]
  cases view.specialPrice with
  | none => rfl
  | some special => exact Function.update_self ..

theorem modelArguments_price (view : ModelView) :
    modelArguments view (bytes "price") = some (.string (price view.price)) := by
  rw [modelArguments]
  cases view.specialPrice <;> rfl

theorem modelArguments_specialPrice (view : ModelView) :
    modelArguments view (bytes "special_price")
      = view.specialPrice.map fun special => .string (price special) := by
  rw [modelArguments]
  cases view.specialPrice <;> rfl

namespace CollectionDb

variable {collate : Bytes → Bytes} {db : CollectionDb collate}

theorem ShownFor.eq {cents : ℤ} {s : Bytes} (h : db.ShownFor cents s) :
    s = price (viewPrice cents) := by
  cases h with
  | collectionPrice hrow hview hs =>
      rw [collectionItem_price, (collectionEntry_prices hview).1] at hs
      exact (Option.some.inj hs).symm
  | collectionSpecial hrow hcents hview hs =>
      rw [collectionItem_specialPrice, (collectionEntry_prices hview).2, hcents] at hs
      exact (Option.some.inj hs).symm
  | modelPrice hrow hview hs =>
      rw [modelArguments_price, (modelEntry_prices hview).1] at hs
      cases hs
      rfl
  | modelSpecial hrow hcents hview hs =>
      rw [modelArguments_specialPrice, (modelEntry_prices hview).2, hcents] at hs
      cases hs
      rfl

theorem toNat_viewPrice (p : ℕ) : (viewPrice p).toNat = p % 2 ^ 32 := by
  rw [viewPrice, Int.toNat_natCast, UInt32.toNat_ofNat']

/-- Every string that the pages show for a price of `p` hundredths denotes it
exactly if `p` fits in the buffer that the view is fetched into. -/
theorem price_shown_iff {p : ℕ} {s : Bytes} (h : db.ShownFor p s) :
    Shows s (p / 100) ↔ p < 2 ^ 32 := by
  have hshows := shows_price (viewPrice p)
  rw [toNat_viewPrice] at hshows
  rw [h.eq]
  constructor
  · intro hp
    have hamount := hp.unique hshows
    rw [div_left_inj' (by norm_num)] at hamount
    have hmod : p = p % 2 ^ 32 := Nat.cast_injective hamount
    omega
  · intro hlt
    rwa [Nat.mod_eq_of_lt hlt] at hshows

variable (collate) in
/-- The collection page shows the special price of its only item. -/
theorem shownFor_pricedDb (cents : ℤ) :
    (pricedDb (some cents) : CollectionDb collate).ShownFor cents (price (viewPrice cents)) := by
  refine ShownFor.collectionSpecial (List.mem_singleton_self _) rfl rfl ?_
  rw [collectionItem_specialPrice]
  rfl

theorem price_shown_iff_sample :
    (pricedDb (some 5005) : CollectionDb id).ShownFor 5005 (price (viewPrice 5005))
    ∧ price (viewPrice 5005) = bytes "50.05"
    ∧ (Shows (price (viewPrice 5005)) ((5005 : ℕ) / 100) ↔ 5005 < 2 ^ 32) :=
  ⟨shownFor_pricedDb id 5005, by decide +kernel,
    price_shown_iff (p := 5005) (shownFor_pricedDb id 5005)⟩

/-- The column takes 42949672.96, and the page shows 0 for it. -/
theorem price_not_shown :
    4294967296 < 10 ^ 10
    ∧ (pricedDb (some 4294967296) : CollectionDb id).ShownFor 4294967296 (bytes "0")
    ∧ ¬ Shows (bytes "0") ((4294967296 : ℕ) / 100) := by
  have hshown : (pricedDb (some 4294967296) : CollectionDb id).ShownFor 4294967296 (bytes "0") :=
    shownFor_pricedDb id 4294967296
  refine ⟨by decide, hshown, fun h => ?_⟩
  have hnumber := h.number
  rw [show Decimal.number (bytes "0") = some 0 by decide +kernel] at hnumber
  norm_num at hnumber

end CollectionDb

end Simurga
