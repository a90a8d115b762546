import Simurga.Protocol

/-!
# Name-value pairs

`processParamHeader` (`protocol.cpp`) on the bytes of a PARAMS record. A
length is one byte, or four with the highest bit set; the sizes are not
compared with what there is, so that a pair which is not whole reads behind
the record. What is read and lies in the memory is the encoding of a pair
(`exists_param_of_processParamHeader`), and an encoding is that of one pair
(`Param.encode_append_inj`).
-/

namespace Simurga

open Protocol

namespace Protocol

/-! ## `processParamHeader` -/

/-- A length and the count of its bytes. -/
def readLength (data : Bytes) : Option (Nat × Nat) :=
  match data with
  | [] => none
  | b :: _ =>
      if 128 ≤ b then
        if 4 ≤ data.length then some (BigEndian.value (data.take 4) &&& 0x7fffffff, 4) else none
      else some (b.toNat, 1)

/-- The sizes, and the memory from the name and from the value on. -/
structure ParamHeader where
  headerSize : Nat
  nameSize : Nat
  valueSize : Nat
  name : Bytes
  value : Bytes
deriving DecidableEq

def processParamHeader (data : Bytes) : Option ParamHeader :=
  (readLength data).bind fun name =>
    (readLength (data.drop name.2)).map fun value =>
      { headerSize := name.2 + value.2, nameSize := name.1, valueSize := value.1
        name := data.drop (name.2 + value.2)
        value := data.drop (name.2 + value.2 + name.1) }

/-- What the pair takes of the memory. -/
def ParamHeader.used (h : ParamHeader) : Nat := h.headerSize + h.nameSize + h.valueSize

/-! ## The encoding -/

/-- The largest length of either form. -/
def lengthBound (long : Bool) : Nat := if long then 2 ^ 31 else 128

def encodeLength (long : Bool) (n : Nat) : Bytes :=
  if long then BigEndian.digits 4 (2 ^ 31 + n) else [UInt8.ofNat n]

/-- A pair, with the form its lengths are written in. -/
structure Param where
  name : Bytes
  value : Bytes
  longName : Bool
  longValue : Bool
  name_lt : name.length < lengthBound longName
  value_lt : value.length < lengthBound longValue

def Param.encode (p : Param) : Bytes :=
  encodeLength p.longName p.name.length ++ encodeLength p.longValue p.value.length
    ++ (p.name ++ p.value)

def Param.pair (p : Param) : Bytes × Bytes := (p.name, p.value)

variable {long : Bool} {n k : Nat} {data rest : Bytes}

theorem encodeLength_pos (long : Bool) (n : Nat) : 0 < (encodeLength long n).length := by
  unfold encodeLength
  split
  · rw [BigEndian.length_digits]
    exact Nat.succ_pos 3
  · exact Nat.one_pos

theorem readLength_encodeLength (hn : n < lengthBound long) (rest : Bytes) :
    readLength (encodeLength long n ++ rest) = some (n, (encodeLength long n).length) := by
  unfold lengthBound at hn
  unfold encodeLength
  cases long with
  | false =>
      have hn : n < 128 := hn
      have hb : (UInt8.ofNat n).toNat = n := by
        rw [UInt8.toNat_ofNat']
        omega
      have hshort : ¬ 128 ≤ UInt8.ofNat n := by
        rw [UInt8.le_iff_toNat_le, hb]
        exact Nat.not_le.mpr hn
      simp [readLength, hshort, hb]
  | true =>
      have hn : n < 2 ^ 31 := hn
      have hlt : 2 ^ 31 + n < 256 ^ 4 := by omega
      have hvalue := BigEndian.value_digits hlt
      have hlen := BigEndian.length_digits 4 (2 ^ 31 + n)
      rw [if_pos rfl]
      rw [BigEndian.digits_succ 3] at hvalue hlen ⊢
      have hfirst : 128 ≤ UInt8.ofNat ((2 ^ 31 + n) / 256 ^ 3) := by
        have h128 : (128 : UInt8).toNat = 128 := rfl
        rw [UInt8.le_iff_toNat_le, UInt8.toNat_ofNat', h128]
        omega
      have htake := @List.take_left' _ _ rest _ hlen
      rw [List.cons_append] at htake ⊢
      simp only [readLength]
      rw [if_pos hfirst, htake, hvalue, if_pos (by simp), hlen,
        Nat.and_two_pow_sub_one_eq_mod _ 31]
      refine congrArg some (Prod.ext ?_ rfl)
      dsimp only
      omega

theorem eq_encodeLength_of_readLength (h : readLength data = some (n, k)) :
    ∃ long, n < lengthBound long ∧ k = (encodeLength long n).length
      ∧ data = encodeLength long n ++ data.drop k := by
  cases data with
  | nil => cases h
  | cons b data =>
      simp only [readLength] at h
      split at h
      · rename_i hlong
        split at h
        · rename_i hlen
          rw [Option.some.injEq, Prod.mk.injEq, Nat.and_two_pow_sub_one_eq_mod _ 31] at h
          obtain ⟨hn, rfl⟩ := h
          have htake : ((b :: data).take 4).length = 4 := List.length_take_of_le hlen
          have hlt := BigEndian.value_lt ((b :: data).take 4)
          have hdigits := BigEndian.digits_value ((b :: data).take 4)
          rw [htake] at hlt hdigits
          have hge : 2 ^ 31 ≤ BigEndian.value ((b :: data).take 4) := by
            have h128 : (128 : UInt8).toNat = 128 := rfl
            rw [UInt8.le_iff_toNat_le, h128] at hlong
            have h3 : (data.take 3).length = 3 := by
              rw [List.length_cons] at hlen
              exact List.length_take_of_le (by omega)
            rw [List.take_succ_cons, BigEndian.value_cons, h3]
            omega
          have hvalue : 2 ^ 31 + n = BigEndian.value ((b :: data).take 4) := by omega
          refine ⟨true, ?_, ?_, ?_⟩
          · change n < 2 ^ 31
            omega
          · rw [encodeLength, if_pos rfl, BigEndian.length_digits]
          · rw [encodeLength, if_pos rfl, hvalue, hdigits, List.take_append_drop]
        · cases h
      · rename_i hshort
        rw [Option.some.injEq, Prod.mk.injEq] at h
        obtain ⟨rfl, rfl⟩ := h
        refine ⟨false, ?_, rfl, ?_⟩
        · have h128 : (128 : UInt8).toNat = 128 := rfl
          rw [UInt8.le_iff_toNat_le, h128] at hshort
          exact Nat.not_le.mp hshort
        · simp [encodeLength, UInt8.ofNat_toNat]

/-- What is read of a pair with memory behind it. -/
structure ParamHeader.Describes (h : ParamHeader) (p : Param) (rest : Bytes) : Prop where
  used : h.used = p.encode.length
  nameSize : h.nameSize = p.name.length
  valueSize : h.valueSize = p.value.length
  name : h.name = p.name ++ p.value ++ rest
  value : h.value = p.value ++ rest

theorem ParamHeader.Describes.take_name {h : ParamHeader} {p : Param} (hp : h.Describes p rest) :
    h.name.take h.nameSize = p.name := by
  rw [hp.name, hp.nameSize, List.append_assoc, List.take_left]

/-- A pair is read back, whatever comes behind it. -/
theorem processParamHeader_encode (p : Param) (rest : Bytes) :
    ∃ h, processParamHeader (p.encode ++ rest) = some h ∧ h.Describes p rest := by
  have hname := readLength_encodeLength p.name_lt
    (encodeLength p.longValue p.value.length ++ (p.name ++ p.value ++ rest))
  have hvalue := readLength_encodeLength p.value_lt (p.name ++ p.value ++ rest)
  have hsplit : p.encode ++ rest
      = encodeLength p.longName p.name.length
        ++ (encodeLength p.longValue p.value.length ++ (p.name ++ p.value ++ rest)) := by
    simp [Param.encode]
  generalize hn : encodeLength p.longName p.name.length = n at *
  generalize hv : encodeLength p.longValue p.value.length = v at *
  have hdrop : (p.encode ++ rest).drop (n.length + v.length) = p.name ++ p.value ++ rest := by
    rw [hsplit, ← List.append_assoc]
    exact List.drop_left' (List.length_append ..)
  unfold processParamHeader
  rw [hsplit] at hdrop ⊢
  rw [hname, Option.bind_some, List.drop_left, hvalue, Option.map_some]
  refine ⟨_, rfl, ?_, rfl, rfl, hdrop, ?_⟩
  · simp only [ParamHeader.used, Param.encode, hn, hv, List.length_append]
    omega
  · dsimp only
    rw [← List.drop_drop, hdrop, List.append_assoc, List.drop_left]

/-- What is read and lies in the memory is a pair. -/
theorem exists_param_of_processParamHeader {h : ParamHeader}
    (hread : processParamHeader data = some h) (hused : h.used ≤ data.length) :
    ∃ (p : Param) (rest : Bytes), data = p.encode ++ rest ∧ h.Describes p rest := by
  obtain ⟨name, hname, hmap⟩ := Option.bind_eq_some_iff.mp hread
  obtain ⟨value, hvalue, rfl⟩ := Option.map_eq_some_iff.mp hmap
  obtain ⟨longName, hnlt, hnk, hndata⟩ := eq_encodeLength_of_readLength hname
  obtain ⟨longValue, hvlt, hvk, hvdata⟩ := eq_encodeLength_of_readLength hvalue
  simp only [ParamHeader.used] at hused
  rw [List.drop_drop] at hvdata
  have hnlen : ((data.drop (name.2 + value.2)).take name.1).length = name.1 := by
    rw [List.length_take, List.length_drop]
    omega
  have hvlen : ((data.drop (name.2 + value.2 + name.1)).take value.1).length = value.1 := by
    rw [List.length_take, List.length_drop]
    omega
  let p : Param :=
    { name := (data.drop (name.2 + value.2)).take name.1
      value := (data.drop (name.2 + value.2 + name.1)).take value.1
      longName, longValue, name_lt := by rw [hnlen]; exact hnlt
      value_lt := by rw [hvlen]; exact hvlt }
  have hrest : data.drop (name.2 + value.2)
      = p.name ++ (p.value ++ data.drop (name.2 + value.2 + name.1 + value.1)) := by
    rw [← List.drop_drop (l := data) (i := value.1), List.take_append_drop,
      ← List.drop_drop (l := data) (i := name.1), List.take_append_drop]
  have hp : p.encode = encodeLength longName name.1 ++ encodeLength longValue value.1
      ++ (p.name ++ p.value) := by
    simp only [p, Param.encode, hnlen, hvlen]
  have hdata : data = p.encode ++ data.drop (name.2 + value.2 + name.1 + value.1) := by
    rw [hp]
    conv_lhs => rw [hndata, hvdata, hrest]
    simp
  obtain ⟨h, hh, hdescribes⟩ :=
    processParamHeader_encode p (data.drop (name.2 + value.2 + name.1 + value.1))
  rw [← hdata, hread] at hh
  exact ⟨p, _, hdata, Option.some.inj hh ▸ hdescribes⟩

/-! ## What an encoding says -/

theorem encodeLength_append_inj {long' : Bool} {m : Nat} {rest' : Bytes}
    (hn : n < lengthBound long) (hm : m < lengthBound long')
    (h : encodeLength long n ++ rest = encodeLength long' m ++ rest') :
    long = long' ∧ n = m ∧ rest = rest' := by
  have hread := readLength_encodeLength hn rest
  rw [h, readLength_encodeLength hm rest', Option.some.injEq, Prod.mk.injEq] at hread
  obtain ⟨rfl, hlen⟩ := hread
  have hlong : long = long' := by
    cases long <;> cases long' <;> first | rfl | simp [encodeLength] at hlen
  subst hlong
  exact ⟨rfl, rfl, List.append_cancel_left h⟩

/-- An encoding is that of one pair, whatever comes behind it. -/
theorem Param.encode_append_inj {p q : Param} {rest' : Bytes}
    (h : p.encode ++ rest = q.encode ++ rest') : p = q ∧ rest = rest' := by
  simp only [Param.encode, List.append_assoc] at h
  obtain ⟨hlongName, hname, h⟩ := encodeLength_append_inj p.name_lt q.name_lt h
  obtain ⟨hlongValue, hvalue, h⟩ := encodeLength_append_inj p.value_lt q.value_lt h
  obtain ⟨hnames, h⟩ := List.append_inj h hname
  obtain ⟨hvalues, hrest⟩ := List.append_inj h hvalue
  cases p
  cases q
  simp only at hlongName hlongValue hnames hvalues
  subst hlongName hlongValue hnames hvalues
  exact ⟨rfl, hrest⟩

theorem Param.encode_ne_nil (p : Param) : p.encode ≠ [] := by
  have := encodeLength_pos p.longName p.name.length
  refine List.ne_nil_of_length_pos ?_
  simp only [Param.encode, List.length_append]
  omega

theorem Param.flatMap_encode_inj {ps qs : List Param}
    (h : ps.flatMap Param.encode = qs.flatMap Param.encode) : ps = qs := by
  induction ps generalizing qs with
  | nil =>
      cases qs with
      | nil => rfl
      | cons q qs => exact absurd (List.append_eq_nil_iff.mp h.symm).1 q.encode_ne_nil
  | cons p ps ih =>
      cases qs with
      | nil => exact absurd (List.append_eq_nil_iff.mp h).1 p.encode_ne_nil
      | cons q qs =>
          rw [List.flatMap_cons, List.flatMap_cons] at h
          obtain ⟨rfl, hrest⟩ := Param.encode_append_inj h
          rw [ih hrest]

end Protocol

end Simurga
