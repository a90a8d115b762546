import Simurga.Lib.Memory
import Simurga.HttpService
import Mathlib.Data.List.TakeWhile

/-!
# Url-encoded data

`decodeUrlEncoded` and `parsePostsUrlEncoded` of `http.cpp`: one loop over a
buffer each, which takes names and values out of it and decodes them where
they lie. `percentEscaped` is the percent decoder on memory; it never
overtakes itself, so what it leaves is what `percentEscapedToRealBytes`
gives (`percentEscaped_spec`).

Both loops read fields as `fields` does (`scan_eq`): a name up to the first
`=`, whatever lies before it, and a value up to the next separator. So a
field without a `=` becomes part of the name of the next one.
-/

namespace Simurga

open Memory

/-! ## The percent decoder on memory -/

/-- `percentEscapedToRealBytes` with `n` bytes left, and where the
destination ends. -/
def percentEscaped : Nat → (Nat → UInt8) → Nat → Nat → (Nat → UInt8) × Nat
  | 0, m, _, destination => (m, destination)
  | n + 1, m, source, destination =>
      if m source = '%'.toUInt8 then
        let m := Function.update m destination 0
        match n with
        | 0 => (m, destination + 1)
        | 1 =>
            (Function.update m destination (m destination ||| hexValue (m (source + 1)) <<< 4),
              destination + 1)
        | n + 2 =>
            let m :=
              Function.update m destination (m destination ||| hexValue (m (source + 1)) <<< 4)
            let m := Function.update m destination (m destination ||| hexValue (m (source + 2)))
            percentEscaped n m (source + 3) (destination + 1)
      else if m source = '+'.toUInt8 then
        percentEscaped n (Function.update m destination ' '.toUInt8) (source + 1) (destination + 1)
      else
        percentEscaped n (Function.update m destination (m source)) (source + 1) (destination + 1)

/-- The text lies at the destination, and everything in front of it and
behind the `n` bytes of the source is as before. -/
structure Decodes (m : Nat → UInt8) (source n destination : Nat) (r : (Nat → UInt8) × Nat)
    (s : Bytes) : Prop where
  ends : r.2 = destination + s.length
  text : load r.1 destination s.length = s
  frame : ∀ i, i < destination ∨ source + n ≤ i → r.1 i = m i

/-- One byte more in front. -/
theorem Decodes.cons {m : Nat → UInt8} {source n source' n' destination : Nat}
    {r : (Nat → UInt8) × Nat} {b : UInt8} {s : Bytes}
    (h : Decodes (Function.update m destination b) source' n' (destination + 1) r s)
    (hsource : destination < source + n) (hends : source' + n' = source + n) :
    Decodes m source n destination r (b :: s) where
  ends := by
    rw [h.ends, List.length_cons]
    omega
  text := by
    rw [List.length_cons, load_succ, h.text, h.frame destination (.inl (by omega)),
      Function.update_self]
  frame i hi := by
    rw [h.frame i (by omega), Function.update_of_ne (by omega)]

theorem Decodes.nil (m : Nat → UInt8) (source n destination : Nat) :
    Decodes m source n destination (m, destination) [] :=
  ⟨rfl, rfl, fun _ _ => rfl⟩

/-- The decoder reads in front of where it writes. -/
theorem percentEscaped_decodes (n : Nat) (m : Nat → UInt8) {source destination : Nat}
    (h : destination ≤ source) :
    Decodes m source n destination (percentEscaped n m source destination)
      (percentEscapedToRealBytes (load m source n)) := by
  fun_induction percentEscaped n m source destination with
  | case1 m source destination => exact .nil ..
  | case2 m source destination hpercent m' =>
      rw [load_succ, load_zero, hpercent]
      exact (Decodes.nil _ (source + 1) 0 _).cons (by omega) rfl
  | case3 m source destination hpercent m' =>
      have hhi : m' (source + 1) = m (source + 1) := Function.update_of_ne (by omega) ..
      have hzero : m' destination = 0 := Function.update_self ..
      rw [load_succ, load_succ, load_zero, hpercent, hhi, hzero, Function.update_idem,
        UInt8.zero_or]
      exact (Decodes.nil _ (source + 2) 0 _).cons (by omega) rfl
  | case4 m source destination hpercent m' n m₁ m₂ ih =>
      have hhi : m' (source + 1) = m (source + 1) := Function.update_of_ne (by omega) ..
      have hlo : m₁ (source + 2) = m (source + 2) := by
        rw [show m₁ (source + 2) = m' (source + 2) from Function.update_of_ne (by omega) ..]
        exact Function.update_of_ne (by omega) ..
      have hm₂ : m₂ = Function.update m destination
          (hexValue (m (source + 1)) <<< 4 ||| hexValue (m (source + 2))) := by
        have hzero : m' destination = 0 := Function.update_self ..
        have hone : m₁ destination = hexValue (m (source + 1)) <<< 4 := by
          rw [show m₁ destination = m' destination ||| hexValue (m' (source + 1)) <<< 4 from
            Function.update_self .., hzero, hhi, UInt8.zero_or]
        rw [show m₂ = Function.update m₁ destination
          (m₁ destination ||| hexValue (m₁ (source + 2))) from rfl, hone, hlo]
        rw [show m₁ = Function.update m' destination _ from rfl, Function.update_idem,
          show m' = Function.update m destination 0 from rfl, Function.update_idem]
      have ih := ih (by omega)
      rw [hm₂, load_update (show destination < source + 3 by omega)] at ih
      rw [hm₂, load_succ, load_succ, load_succ, hpercent]
      exact ih.cons (by omega) (by omega)
  | case5 n m source destination hpercent hplus ih =>
      have hload := load_update (m := m) (n := n) (x := ' '.toUInt8)
        (show destination < source + 1 by omega)
      have ih := ih (by omega)
      rw [hload] at ih
      rw [load_succ, percentEscapedToRealBytes.eq_def]
      dsimp only
      rw [if_neg hpercent, if_pos hplus]
      exact ih.cons (by omega) (by omega)
  | case6 n m source destination hpercent hplus ih =>
      have hload := load_update (m := m) (n := n) (x := m source)
        (show destination < source + 1 by omega)
      have ih := ih (by omega)
      rw [hload] at ih
      rw [load_succ, percentEscapedToRealBytes_cons ⟨hpercent, hplus⟩]
      exact ih.cons (by omega) (by omega)

/-! ## The loops -/

/-- The variables of both loops. -/
structure Scan (Out : Type) where
  mem : Nat → UInt8
  nameStart : Nat := 0
  /-- Not set before a name has ended. -/
  nameSize : Nat := 0
  valueStart : Option Nat := none
  output : Out

namespace Scan

variable {Out : Type}

/-- At a `=` behind a name. -/
def endName (s : Scan Out) (i : Nat) : Scan Out :=
  let r := percentEscaped (i - s.nameStart) s.mem s.nameStart s.nameStart
  { s with mem := r.1, nameSize := r.2 - s.nameStart, valueStart := some (i + 1) }

/-- At the end of a value. -/
def endValue (set : Out → Bytes → Bytes → Out) (s : Scan Out) (valueStart i : Nat) : Scan Out :=
  let r := percentEscaped (i - valueStart) s.mem valueStart valueStart
  { s with
    mem := r.1
    nameStart := i + 1
    valueStart := none
    output := set s.output (load r.1 s.nameStart s.nameSize)
      (load r.1 valueStart (r.2 - valueStart)) }

end Scan

/-- One turn of the loop in `decodeUrlEncoded`. -/
def decodeTurn {Out : Type} (set : Out → Bytes → Bytes → Out) (fieldSeperator : UInt8) (size : Nat)
    (s : Scan Out) (i : Nat) : Scan Out :=
  if i = size ∨ s.mem i = fieldSeperator then
    match s.valueStart with
    | some valueStart => s.endValue set valueStart i
    | none => s
  else if s.mem i = ' '.toUInt8 ∧ s.valueStart = none then { s with nameStart := s.nameStart + 1 }
  else if s.mem i = '='.toUInt8 ∧ s.valueStart = none then s.endName i
  else s

/-- `decodeUrlEncoded` for `char`, on a copy of the data; the strings of the
map are its bytes. -/
def decodeUrlEncoded (data : Bytes) (output : Bytes → Option Bytes) (fieldSeperator : UInt8) :
    Bytes → Option Bytes :=
  let set := fun output name value => Function.update output name (some value)
  let s : Scan (Bytes → Option Bytes) := { mem := fun i => data.getD i 0, output }
  ((List.range (data.length + 1)).foldl (decodeTurn set fieldSeperator data.length) s).output

/-- `Post::Type`. -/
inductive PostType where
  | file | form
deriving DecidableEq

/-- `Http::Post`; `filename` is another name for `value`. -/
structure Post where
  type : PostType
  value : Bytes := []
  contentType : Bytes := []
  data : Bytes := []
deriving DecidableEq

/-- `Environment::posts`. -/
abbrev Posts := Bytes → Option Post

/-- `posts[name]` of a form. -/
def Posts.setForm (posts : Posts) (name value : Bytes) : Posts :=
  Function.update posts name (some { (posts name).getD { type := .form } with type := .form, value })

/-- One turn of the loop in `parsePostsUrlEncoded`. In the last one it
looks at the byte behind the buffer. -/
def postTurn (contentLength : Nat) (s : Scan Posts) (i : Nat) : Scan Posts :=
  if s.mem i = '='.toUInt8 ∧ s.valueStart = none then s.endName i
  else
    match s.valueStart with
    | some valueStart =>
        if i = contentLength ∨ s.mem i = '&'.toUInt8 then s.endValue Posts.setForm valueStart i
        else s
    | none => s

/-- `Environment::parsePostsUrlEncoded` on the buffer. -/
def parsePostsUrlEncoded (mem : Nat → UInt8) (contentLength : Nat) (posts : Posts) : Posts :=
  if contentLength = 0 then posts
  else ((List.range (contentLength + 1)).foldl (postTurn contentLength) { mem, output := posts }).output

/-! ## Fields -/

/-- The fields of a text, raw: each name goes up to the first `=`. -/
def fields (separator : UInt8) (s : Bytes) : List (Bytes × Bytes) :=
  match _h : s.dropWhile (· ≠ '='.toUInt8) with
  | [] => []
  | _ :: rest =>
      (s.takeWhile (· ≠ '='.toUInt8), rest.takeWhile (· ≠ separator))
        :: fields separator (rest.dropWhile (· ≠ separator)).tail
termination_by s.length
decreasing_by
  have hlen : (s.dropWhile (· ≠ '='.toUInt8)).length ≤ s.length := List.length_dropWhile_le ..
  have hrest : (rest.dropWhile (· ≠ separator)).length ≤ rest.length := List.length_dropWhile_le ..
  rw [_h, List.length_cons] at hlen
  rw [List.length_tail]
  omega

theorem fields_nil (separator : UInt8) : fields separator [] = [] := by
  rw [fields]
  rfl

theorem decide_ne {c : UInt8} {s : Bytes} (h : c ∉ s) : ∀ b ∈ s, decide (b ≠ c) = true :=
  fun _ hb => decide_eq_true fun hbc => h (hbc ▸ hb)

theorem takeWhile_ne {c : UInt8} {s : Bytes} (h : c ∉ s) (rest : Bytes) :
    (s ++ c :: rest).takeWhile (· ≠ c) = s := by
  rw [List.takeWhile_append_of_pos (decide_ne h)]
  simp

theorem dropWhile_ne {c : UInt8} {s : Bytes} (h : c ∉ s) (rest : Bytes) :
    (s ++ c :: rest).dropWhile (· ≠ c) = c :: rest := by
  rw [List.dropWhile_append_of_pos (decide_ne h)]
  simp

variable {separator : UInt8} {name value s : Bytes}

/-- What has no `=` in it says nothing. -/
theorem fields_of_not_mem (h : '='.toUInt8 ∉ s) : fields separator s = [] := by
  rw [fields]
  split
  · rfl
  · rename_i hrest
    rw [List.dropWhile_eq_nil_iff.mpr (decide_ne h)] at hrest
    cases hrest

theorem fields_last (hname : '='.toUInt8 ∉ name) (hvalue : separator ∉ value) :
    fields separator (name ++ '='.toUInt8 :: value) = [(name, value)] := by
  rw [fields]
  split
  · rename_i hrest
    rw [dropWhile_ne hname] at hrest
    cases hrest
  · rename_i hrest
    rw [dropWhile_ne hname] at hrest
    cases hrest
    rw [takeWhile_ne hname, List.takeWhile_eq_self_iff.mpr (decide_ne hvalue),
      List.dropWhile_eq_nil_iff.mpr (decide_ne hvalue), List.tail_nil, fields_nil]

theorem fields_cons (hname : '='.toUInt8 ∉ name) (hvalue : separator ∉ value) :
    fields separator (name ++ '='.toUInt8 :: (value ++ separator :: s))
      = (name, value) :: fields separator s := by
  rw [fields]
  split
  · rename_i hrest
    rw [dropWhile_ne hname] at hrest
    cases hrest
  · rename_i hrest
    rw [dropWhile_ne hname] at hrest
    cases hrest
    rw [takeWhile_ne hname, takeWhile_ne hvalue, dropWhile_ne hvalue, List.tail_cons]

/-! ## What the loops read -/

/-- The blanks that a loop counts in a name. -/
def blanks (skips : Bool) (name : Bytes) : Nat := if skips then name.count ' '.toUInt8 else 0

/-- What a loop puts out for a raw field. -/
def setField {Out : Type} (skips : Bool) (set : Out → Bytes → Bytes → Out) (output : Out)
    (field : Bytes × Bytes) : Out :=
  set output (percentEscapedToRealBytes (field.1.drop (blanks skips field.1)))
    (percentEscapedToRealBytes field.2)

section Scanning

variable {Out : Type}

/-- The start of a name moves on. -/
def Scan.skip (s : Scan Out) (n : Nat) : Scan Out := { s with nameStart := s.nameStart + n }

theorem skip_zero (s : Scan Out) : s.skip 0 = s := rfl

/-- What one turn does in a name, behind it, in a value and behind that. -/
structure Turns (turn : Scan Out → Nat → Scan Out) (skips : Bool) (set : Out → Bytes → Bytes → Out)
    (separator : UInt8) (size : Nat) : Prop where
  name : ∀ s i, s.valueStart = none → i < size → s.mem i ≠ '='.toUInt8 →
    turn s i = s.skip (blanks skips [s.mem i])
  equals : ∀ s i, s.valueStart = none → i < size → s.mem i = '='.toUInt8 → turn s i = s.endName i
  value : ∀ s i v, s.valueStart = some v → i < size → s.mem i ≠ separator → turn s i = s
  stop : ∀ s i v, s.valueStart = some v → i = size ∨ s.mem i = separator →
    turn s i = s.endValue set v i
  last : ∀ s, s.valueStart = none → (turn s size).output = s.output

variable {turn : Scan Out → Nat → Scan Out} {skips : Bool} {set : Out → Bytes → Bytes → Out}
  {size : Nat} {s : Scan Out}

/-- Through a name the start moves on by the blanks. -/
theorem Turns.through_name (h : Turns turn skips set separator size) {n i : Nat}
    (hopen : s.valueStart = none) (hsize : i + n ≤ size)
    (hname : '='.toUInt8 ∉ load s.mem i n) :
    (List.range' i n).foldl turn s = s.skip (blanks skips (load s.mem i n)) := by
  induction n generalizing i s with
  | zero => simp [blanks, skip_zero]
  | succ n ih =>
      rw [load_succ, List.mem_cons, not_or] at hname
      rw [List.range'_succ, List.foldl_cons, h.name s i hopen (by omega) (Ne.symm hname.1),
        ih (s := s.skip (blanks skips [s.mem i])) hopen (by omega) hname.2, load_succ]
      simp only [Scan.skip, blanks, Nat.add_assoc]
      cases skips with
      | false => rfl
      | true =>
          simp only [if_true]
          rw [show s.mem i :: load s.mem (i + 1) n = [s.mem i] ++ load s.mem (i + 1) n from rfl,
            List.count_append]

theorem Turns.through_value (h : Turns turn skips set separator size) {n i v : Nat}
    (hopen : s.valueStart = some v) (hsize : i + n ≤ size) (hvalue : separator ∉ load s.mem i n) :
    (List.range' i n).foldl turn s = s := by
  induction n generalizing i with
  | zero => rfl
  | succ n ih =>
      rw [load_succ, List.mem_cons, not_or] at hvalue
      rw [List.range'_succ, List.foldl_cons, h.value s i v hopen (by omega) (Ne.symm hvalue.1),
        ih (by omega) hvalue.2]

theorem length_percentEscaped_le (s : Bytes) :
    (percentEscapedToRealBytes s).length ≤ s.length := by
  fun_induction percentEscapedToRealBytes s <;> simp_all
  omega

@[simp] theorem endName_nameStart (s : Scan Out) (e : Nat) : (s.endName e).nameStart = s.nameStart :=
  rfl

@[simp] theorem endName_valueStart (s : Scan Out) (e : Nat) :
    (s.endName e).valueStart = some (e + 1) := rfl

@[simp] theorem endName_output (s : Scan Out) (e : Nat) : (s.endName e).output = s.output := rfl

/-- The end of a name changes nothing from there on. -/
theorem endName_mem {e i : Nat} (hstart : s.nameStart ≤ e) (hi : e ≤ i) :
    (s.endName e).mem i = s.mem i :=
  (percentEscaped_decodes (e - s.nameStart) s.mem (Nat.le_refl s.nameStart)).frame i (.inr (by omega))

theorem endValue_mem {v e i : Nat} (hstart : v ≤ e) (hi : e ≤ i) :
    (s.endValue set v e).mem i = s.mem i :=
  (percentEscaped_decodes (e - v) s.mem (Nat.le_refl v)).frame i (.inr (by omega))

/-- What is put out of a name and a value is what lies there, decoded. -/
theorem endValue_endName {k e v : Nat} (set : Out → Bytes → Bytes → Out) (hk : s.nameStart + k = e) :
    ((s.endName e).endValue set (e + 1) v).output
      = set s.output (percentEscapedToRealBytes (load s.mem s.nameStart k))
          (percentEscapedToRealBytes (load s.mem (e + 1) (v - (e + 1)))) := by
  have hname := percentEscaped_decodes (e - s.nameStart) s.mem (Nat.le_refl s.nameStart)
  have hvalue := percentEscaped_decodes (v - (e + 1)) (s.endName e).mem (Nat.le_refl (e + 1))
  have hsame : load (s.endName e).mem (e + 1) (v - (e + 1)) = load s.mem (e + 1) (v - (e + 1)) :=
    load_congr fun i hi _ => endName_mem (by omega) (by omega)
  have hshort := length_percentEscaped_le (load s.mem s.nameStart k)
  rw [length_load] at hshort
  rw [hsame] at hvalue
  rw [show e - s.nameStart = k by omega] at hname
  have hsize : (s.endName e).nameSize = (percentEscapedToRealBytes (load s.mem s.nameStart k)).length := by
    show (percentEscaped (e - s.nameStart) s.mem s.nameStart s.nameStart).2 - s.nameStart = _
    rw [show e - s.nameStart = k by omega, hname.ends, Nat.add_sub_cancel_left]
  have hkept : load (percentEscaped (v - (e + 1)) (s.endName e).mem (e + 1) (e + 1)).1 s.nameStart
      (s.endName e).nameSize = percentEscapedToRealBytes (load s.mem s.nameStart k) := by
    rw [hsize, load_congr fun i _ hi => hvalue.frame i (.inl (by omega))]
    show load (percentEscaped (e - s.nameStart) s.mem s.nameStart s.nameStart).1 _ _ = _
    rw [show e - s.nameStart = k by omega]
    exact hname.text
  unfold Scan.endValue
  dsimp only
  rw [endName_nameStart, endName_output, hkept, hvalue.ends, Nat.add_sub_cancel_left, hvalue.text]

/-- A loop puts out the fields of what it still has to read. -/
theorem Turns.scan (h : Turns turn skips set separator size) {f : Nat} (hopen : s.valueStart = none)
    (hstart : s.nameStart = f) (hsize : f ≤ size) :
    ((List.range' f (size + 1 - f)).foldl turn s).output
      = (fields separator (load s.mem f (size - f))).foldl (setField skips set) s.output := by
  obtain ⟨n, hn⟩ : ∃ n, size - f = n := ⟨_, rfl⟩
  induction n using Nat.strongRecOn generalizing s f with
  | ind n ih =>
    by_cases hmem : '='.toUInt8 ∈ load s.mem f (size - f)
    · obtain ⟨name, rest, htext, hname⟩ := List.eq_append_cons_of_mem hmem
      obtain ⟨hlen, hloadName, hbehind⟩ := load_eq_append htext
      obtain ⟨-, hequals, hloadRest⟩ := load_eq_cons hbehind
      rw [List.length_cons] at hlen
      obtain ⟨e, he⟩ : ∃ e, f + name.length = e := ⟨_, rfl⟩
      rw [he] at hequals hloadRest
      have hblanks : blanks skips name ≤ name.length := by
        unfold blanks
        split
        · exact List.count_le_length
        · exact Nat.zero_le _
      -- The loop is at the `=` behind the name.
      obtain ⟨s₁, hs₁⟩ : ∃ s₁, s₁ = s.skip (blanks skips name) := ⟨_, rfl⟩
      have hnameStart : s₁.nameStart = f + blanks skips name := by rw [hs₁, Scan.skip, hstart]
      have hsame : s₁.mem = s.mem := by rw [hs₁, Scan.skip]
      have houtput : s₁.output = s.output := by rw [hs₁, Scan.skip]
      have hname₁ : load s₁.mem s₁.nameStart (name.length - blanks skips name)
          = name.drop (blanks skips name) := by
        rw [hnameStart, hsame, ← drop_load hblanks, hloadName]
      have hturns : (List.range' f (name.length + 1)).foldl turn s = s₁.endName e := by
        rw [List.range'_concat, List.foldl_append, h.through_name hopen (by omega)
          (hloadName.symm ▸ hname), hloadName, ← hs₁, Nat.one_mul, he]
        exact h.equals _ _ (by rw [hs₁]; exact hopen) (by omega) (by rw [hsame]; exact hequals)
      have hstart₁ : s₁.nameStart + (name.length - blanks skips name) = e := by
        rw [hnameStart]
        omega
      have hmem₁ : ∀ i, e ≤ i → (s₁.endName e).mem i = s₁.mem i :=
        fun i hi => endName_mem (by omega) hi
      have hrest₁ : load (s₁.endName e).mem (e + 1) rest.length = rest := by
        rw [load_congr fun i hi _ => hmem₁ i (by omega), hsame, hloadRest]
      rw [show size + 1 - f = name.length + 1 + (rest.length + 1) by omega,
        ← List.range'_append_1, List.foldl_append, hturns, htext,
        show f + (name.length + 1) = e + 1 by omega]
      by_cases hsep : separator ∈ rest
      · obtain ⟨value, tail, hrest, hvalue⟩ := List.eq_append_cons_of_mem hsep
        have hlenRest : rest.length = value.length + (tail.length + 1) := by
          rw [hrest, List.length_append, List.length_cons]
        obtain ⟨-, hloadValue, hbehind⟩ := load_eq_append (hrest₁.trans hrest)
        obtain ⟨-, hstop, hloadTail⟩ := load_eq_cons hbehind
        obtain ⟨v, hv⟩ : ∃ v, e + 1 + value.length = v := ⟨_, rfl⟩
        rw [hv] at hstop hloadTail
        -- It goes on behind the separator.
        have hturns : (List.range' (e + 1) (value.length + 1)).foldl turn (s₁.endName e)
            = (s₁.endName e).endValue set (e + 1) v := by
          rw [List.range'_concat, List.foldl_append,
            h.through_value (endName_valueStart ..) (by omega) (hloadValue.symm ▸ hvalue),
            Nat.one_mul, hv]
          exact h.stop _ _ _ (endName_valueStart ..) (.inr hstop)
        have htail : load ((s₁.endName e).endValue set (e + 1) v).mem (v + 1) (size - (v + 1))
            = tail := by
          rw [load_congr fun i hi _ => endValue_mem (by omega) (by omega),
            show size - (v + 1) = tail.length by omega, hloadTail]
        have hgoOn := ih (size - (v + 1)) (by omega) (s := (s₁.endName e).endValue set (e + 1) v)
          (f := v + 1) rfl rfl (by omega) rfl
        have hvalue₁ : load s₁.mem (e + 1) (v - (e + 1)) = value := by
          rw [show v - (e + 1) = value.length by omega]
          exact (load_congr fun i hi _ => (hmem₁ i (by omega)).symm).trans hloadValue
        rw [show rest.length + 1 = value.length + 1 + (size + 1 - (v + 1)) by omega,
          ← List.range'_append_1, List.foldl_append, hturns,
          show e + 1 + (value.length + 1) = v + 1 by omega, hgoOn, htail, hrest,
          fields_cons hname hvalue, List.foldl_cons, endValue_endName set hstart₁, hname₁, hvalue₁,
          houtput]
        rfl
      · rw [List.range'_concat, List.foldl_append,
          h.through_value (endName_valueStart ..) (by omega) (hrest₁.symm ▸ hsep),
          fields_last hname hsep, Nat.one_mul, show e + 1 + rest.length = size by omega]
        have hend := h.stop (s₁.endName e) size _ (endName_valueStart ..) (.inl rfl)
        rw [List.foldl_cons, List.foldl_nil, hend, endValue_endName set hstart₁, hname₁,
          show size - (e + 1) = rest.length by omega, hsame, hloadRest, houtput]
        rfl
    · rw [show size + 1 - f = size - f + 1 by omega, List.range'_concat, List.foldl_append,
        h.through_name hopen (by omega) hmem, fields_of_not_mem hmem]
      rw [show f + 1 * (size - f) = size by omega]
      exact h.last _ hopen

end Scanning

/-! ## Both loops -/

theorem decodeTurn_turns {Out : Type} (set : Out → Bytes → Bytes → Out) {fieldSeperator : UInt8}
    (hblank : fieldSeperator ≠ ' '.toUInt8) (hequals : fieldSeperator ≠ '='.toUInt8) (size : Nat) :
    Turns (decodeTurn set fieldSeperator size) true set fieldSeperator size where
  name s i hopen hsize hmem := by
    have hnot : i ≠ size := by omega
    unfold decodeTurn
    rw [hopen]
    by_cases hsep : s.mem i = fieldSeperator
    · simp [hsep, blanks, hblank, skip_zero]
    · by_cases hspace : s.mem i = ' '.toUInt8
      · rw [if_neg (by simp [hnot, hsep]), if_pos ⟨hspace, rfl⟩]
        simp [blanks, hspace, Scan.skip, hopen]
      · simp [hnot, hsep, hspace, hmem, blanks, skip_zero]
  equals s i hopen hsize hmem := by
    have hnot : ¬ (i = size ∨ s.mem i = fieldSeperator) := fun h =>
      h.elim (by omega) fun h => hequals (h.symm.trans hmem)
    have hspace : ¬ (s.mem i = ' '.toUInt8 ∧ s.valueStart = none) := by
      rw [hmem]
      exact fun h => absurd h.1 (by decide)
    unfold decodeTurn
    rw [if_neg hnot, if_neg hspace, if_pos ⟨hmem, hopen⟩]
  value s i v hopen hsize hmem := by
    have hnot : ¬ (i = size ∨ s.mem i = fieldSeperator) := fun h => h.elim (by omega) hmem
    unfold decodeTurn
    rw [if_neg hnot, hopen]
    simp
  stop s i v hopen hstop := by
    unfold decodeTurn
    rw [if_pos hstop, hopen]
  last s hopen := by
    unfold decodeTurn
    rw [if_pos (.inl rfl), hopen]

theorem postTurn_turns (contentLength : Nat) :
    Turns (postTurn contentLength) false Posts.setForm '&'.toUInt8 contentLength where
  name s i hopen hsize hmem := by
    unfold postTurn
    rw [if_neg fun h => hmem h.1, hopen]
    rfl
  equals s i hopen hsize hmem := by
    unfold postTurn
    rw [if_pos ⟨hmem, hopen⟩]
  value s i v hopen hsize hmem := by
    have hnot : ¬ (i = contentLength ∨ s.mem i = '&'.toUInt8) := fun h => h.elim (by omega) hmem
    unfold postTurn
    rw [hopen]
    simp [hnot]
  stop s i v hopen hstop := by
    unfold postTurn
    rw [hopen]
    simp [hstop]
  last s hopen := by
    unfold postTurn
    split
    · rfl
    · rw [hopen]

theorem decodeUrlEncoded_scan (data : Bytes) (output : Bytes → Option Bytes) {fieldSeperator : UInt8}
    (hblank : fieldSeperator ≠ ' '.toUInt8) (hequals : fieldSeperator ≠ '='.toUInt8) :
    decodeUrlEncoded data output fieldSeperator
      = (fields fieldSeperator data).foldl (setField true fun output name value =>
          Function.update output name (some value)) output := by
  have hscan := (decodeTurn_turns (fun output name value => Function.update output name (some value))
    hblank hequals data.length).scan (s := { mem := fun i => data.getD i 0, output }) rfl rfl
    (Nat.zero_le _)
  have hdata : load (fun i => data.getD i 0) 0 data.length = data :=
    List.ext_getElem length_load fun i hi hi' => by simp [load, hi']
  rw [Nat.sub_zero, Nat.sub_zero, ← List.range_eq_range'] at hscan
  rw [decodeUrlEncoded, hscan, hdata]

/-- `decodeUrlEncoded` puts the fields into the map in their order, without
as many first bytes of a name as it has blanks. -/
theorem decodeUrlEncoded_eq (data : Bytes) (output : Bytes → Option Bytes) {fieldSeperator : UInt8}
    (hblank : fieldSeperator ≠ ' '.toUInt8) (hequals : fieldSeperator ≠ '='.toUInt8) :
    decodeUrlEncoded data output fieldSeperator
      = (fields fieldSeperator data).foldl (fun output field =>
          Function.update output
            (percentEscapedToRealBytes (field.1.drop (field.1.count ' '.toUInt8)))
            (some (percentEscapedToRealBytes field.2))) output := by
  rw [decodeUrlEncoded_scan data output hblank hequals]
  rfl

/-- The blank is in the middle of the name, and the first field has no
value. -/
theorem decodeUrlEncoded_eq_glued :
    decodeUrlEncoded (bytes "x&a b=%41") (fun _ => none) '&'.toUInt8
      = (fields '&'.toUInt8 (bytes "x&a b=%41")).foldl (fun output field =>
          Function.update output
            (percentEscapedToRealBytes (field.1.drop (field.1.count ' '.toUInt8)))
            (some (percentEscapedToRealBytes field.2))) fun _ => none :=
  decodeUrlEncoded_eq _ _ (by decide) (by decide)

/-- `parsePostsUrlEncoded` makes a form of each field of the buffer, with
all of its name, whatever lies behind the buffer. -/
theorem parsePostsUrlEncoded_eq (mem : Nat → UInt8) (contentLength : Nat) (posts : Posts) :
    parsePostsUrlEncoded mem contentLength posts
      = (fields '&'.toUInt8 (load mem 0 contentLength)).foldl (fun posts field =>
          posts.setForm (percentEscapedToRealBytes field.1) (percentEscapedToRealBytes field.2))
        posts := by
  unfold parsePostsUrlEncoded
  split
  · rename_i hzero
    rw [hzero, load_zero, fields_nil]
    rfl
  · have hscan := (postTurn_turns contentLength).scan (s := { mem, output := posts }) rfl rfl
      (Nat.zero_le _)
    rw [Nat.sub_zero, Nat.sub_zero, ← List.range_eq_range'] at hscan
    exact hscan

end Simurga
