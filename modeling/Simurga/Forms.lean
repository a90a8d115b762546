import Simurga.Routing
import Simurga.Environment

/-!
# Forms, queries and cookies

What a sender writes as url-encoded data is read back
(`decodeUrlEncoded_written`), whichever bytes it escapes, with blanks in
front of the names, as cookies have them. A form comes in records, which
`fillPostBuffer` puts together again; what is read is what was written in
them, however the text was cut (`parsePostsUrlEncoded_fillAll`).
-/

namespace Simurga

open Memory

/-! ## Escapes -/

/-- A byte and how it may be written. -/
inductive Escape (separator : UInt8) : UInt8 → Bytes → Prop where
  | plain {c : UInt8} (hplain : IsPlain c) (hequals : c ≠ '='.toUInt8) (hblank : c ≠ ' '.toUInt8)
      (hseparator : c ≠ separator) : Escape separator c [c]
  | plus : Escape separator ' '.toUInt8 ['+'.toUInt8]
  | hex {hi lo : UInt8} (hhi : isHexDigit hi = true) (hlo : isHexDigit lo = true) :
      Escape separator (hexValue hi <<< 4 ||| hexValue lo) ['%'.toUInt8, hi, lo]

/-- A text and how it may be written. -/
inductive Escapes (separator : UInt8) : Bytes → Bytes → Prop where
  | nil : Escapes separator [] []
  | cons {c : UInt8} {e s t : Bytes} (hc : Escape separator c e) (hs : Escapes separator s t) :
      Escapes separator (c :: s) (e ++ t)

variable {separator : UInt8} {s t : Bytes}

theorem Escapes.decode (h : Escapes separator s t) : percentEscapedToRealBytes t = s := by
  induction h with
  | nil => rfl
  | cons hc _ ih =>
      cases hc with
      | plain hplain => rw [List.singleton_append, percentEscapedToRealBytes_cons hplain, ih]
      | plus =>
          rw [List.singleton_append, percentEscapedToRealBytes.eq_def]
          dsimp only
          rw [if_neg (by decide), if_pos rfl, ih]
      | hex =>
          rw [List.cons_append, List.cons_append, List.singleton_append, percentEscapedToRealBytes,
            if_pos rfl, ih]

/-- The two separators of the source. -/
def IsSeparator (separator : UInt8) : Prop :=
  separator = '&'.toUInt8 ∨ separator = ';'.toUInt8

theorem ne_of_isHexDigit {c d : UInt8} (hc : isHexDigit c = false) (hd : isHexDigit d = true) :
    c ≠ d := by
  rintro rfl
  rw [hc] at hd
  cases hd

/-- What ends a name or a value, or counts as a blank, stands in no
escape. -/
theorem Escape.not_mem (hseparator : IsSeparator separator) {c : UInt8} {e : Bytes}
    (h : Escape separator c e) :
    '='.toUInt8 ∉ e ∧ ' '.toUInt8 ∉ e ∧ separator ∉ e := by
  have hother : isHexDigit separator = false := by rcases hseparator with rfl | rfl <;> rfl
  cases h with
  | plain hplain hequals hblank hne =>
      simp [Ne.symm hequals, Ne.symm hblank, Ne.symm hne]
  | plus =>
      rcases hseparator with rfl | rfl <;> decide
  | hex hhi hlo =>
      have hpercent : separator ≠ '%'.toUInt8 := by
        rcases hseparator with rfl | rfl <;> decide
      simp only [List.mem_cons, List.not_mem_nil, or_false, not_or]
      exact ⟨⟨by decide, ne_of_isHexDigit rfl hhi, ne_of_isHexDigit rfl hlo⟩,
        ⟨by decide, ne_of_isHexDigit rfl hhi, ne_of_isHexDigit rfl hlo⟩,
        hpercent, ne_of_isHexDigit hother hhi, ne_of_isHexDigit hother hlo⟩

theorem Escapes.not_mem (hseparator : IsSeparator separator) (h : Escapes separator s t) :
    '='.toUInt8 ∉ t ∧ ' '.toUInt8 ∉ t ∧ separator ∉ t := by
  induction h with
  | nil => simp
  | cons hc _ ih =>
      obtain ⟨hequals, hblank, hother⟩ := hc.not_mem hseparator
      simp only [List.mem_append, not_or]
      exact ⟨⟨hequals, ih.1⟩, ⟨hblank, ih.2.1⟩, hother, ih.2.2⟩

/-! ## Written fields -/

/-- A field with the text it is written as. -/
structure WrittenField (separator : UInt8) where
  /-- The blanks in front of the name. -/
  blanks : Nat := 0
  name : Bytes
  value : Bytes
  rawName : Bytes
  rawValue : Bytes
  name_escapes : Escapes separator name rawName
  value_escapes : Escapes separator value rawValue

namespace WrittenField

/-- The raw name, with its blanks. -/
def label (w : WrittenField separator) : Bytes :=
  List.replicate w.blanks ' '.toUInt8 ++ w.rawName

def toBytes (w : WrittenField separator) : Bytes := w.label ++ '='.toUInt8 :: w.rawValue

theorem label_not_mem (hseparator : IsSeparator separator) (w : WrittenField separator) :
    '='.toUInt8 ∉ w.label := by
  rw [label, List.mem_append, List.mem_replicate, not_or]
  exact ⟨fun h => absurd h.2 (by decide), (w.name_escapes.not_mem hseparator).1⟩

/-- As many bytes are left out of a name as it has blanks. -/
theorem drop_label (hseparator : IsSeparator separator) (w : WrittenField separator) :
    w.label.drop (w.label.count ' '.toUInt8) = w.rawName := by
  have hcount : w.label.count ' '.toUInt8 = w.blanks := by
    rw [label, List.count_append, List.count_replicate_self,
      List.count_eq_zero.mpr (w.name_escapes.not_mem hseparator).2.1, Nat.add_zero]
  rw [hcount, label, List.drop_left' List.length_replicate]

end WrittenField

/-- The fields of a text are the ones written. -/
theorem fields_written (hseparator : IsSeparator separator) (ws : List (WrittenField separator)) :
    fields separator ([separator].intercalate (ws.map WrittenField.toBytes))
      = ws.map fun w => (w.label, w.rawValue) := by
  induction ws with
  | nil => exact fields_nil separator
  | cons w ws ih =>
      have hname := w.label_not_mem hseparator
      have hvalue := (w.value_escapes.not_mem hseparator).2.2
      cases ws with
      | nil =>
          rw [List.map_cons, List.map_nil, List.intercalate_singleton]
          exact fields_last hname hvalue
      | cons w' ws =>
          rw [List.map_cons, List.map_cons, List.intercalate_cons_cons, ← List.map_cons,
            WrittenField.toBytes, List.append_assoc, List.append_assoc, List.cons_append,
            List.singleton_append, fields_cons hname hvalue, ih]
          rfl

/-- A query or the cookies of a request are read as they were written. -/
theorem decodeUrlEncoded_written (hseparator : IsSeparator separator)
    (ws : List (WrittenField separator)) (output : Bytes → Option Bytes) :
    decodeUrlEncoded ([separator].intercalate (ws.map WrittenField.toBytes)) output separator
      = ws.foldl (fun (output : Bytes → Option Bytes) (w : WrittenField separator) =>
          Function.update output w.name (some w.value)) output := by
  have hblank : separator ≠ ' '.toUInt8 := by rcases hseparator with rfl | rfl <;> decide
  have hequals : separator ≠ '='.toUInt8 := by rcases hseparator with rfl | rfl <;> decide
  rw [decodeUrlEncoded_scan _ output hblank hequals, fields_written hseparator, List.foldl_map]
  simp only [setField, blanks, if_true, WrittenField.drop_label hseparator,
    (WrittenField.name_escapes _).decode, (WrittenField.value_escapes _).decode]

/-- The cookie `q` with the value `a b`. -/
def writtenCookie (separator : UInt8) (h : IsSeparator separator) : WrittenField separator where
  name := bytes "q"
  value := bytes "a b"
  rawName := bytes "q"
  rawValue := bytes "%61+b"
  name_escapes :=
    have hq : 'q'.toUInt8 ≠ separator := by rcases h with rfl | rfl <;> decide
    .cons (.plain ⟨by decide, by decide⟩ (by decide) (by decide) hq) .nil
  value_escapes :=
    have hb : 'b'.toUInt8 ≠ separator := by rcases h with rfl | rfl <;> decide
    .cons (@Escape.hex separator '6'.toUInt8 '1'.toUInt8 rfl rfl)
      (.cons .plus (.cons (.plain ⟨by decide, by decide⟩ (by decide) (by decide) hb) .nil))

theorem decodeUrlEncoded_written_cookie :
    decodeUrlEncoded ([';'.toUInt8].intercalate
        ([writtenCookie _ (.inr rfl), { writtenCookie _ (.inr rfl) with blanks := 1 }].map
          WrittenField.toBytes)) (fun _ => none) ';'.toUInt8
      = [writtenCookie ';'.toUInt8 (.inr rfl), { writtenCookie _ (.inr rfl) with blanks := 1 }].foldl
          (fun (output : Bytes → Option Bytes) (w : WrittenField ';'.toUInt8) =>
            Function.update output w.name (some w.value)) fun _ => none :=
  decodeUrlEncoded_written (.inr rfl) _ _

/-! ## The buffer of a form -/

/-- The records of a body, one after the other. -/
def fillAll (contentLength : Nat) : PostBuffer → List Bytes → Option PostBuffer
  | b, [] => some b
  | b, data :: rs => (fillPostBuffer contentLength b data).bind fun b => fillAll contentLength b rs

theorem fillPostBuffer_full {contentLength : Nat} {b : PostBuffer} (h : contentLength ≤ b.filled)
    (data : Bytes) : fillPostBuffer contentLength b data = none := by
  rw [fillPostBuffer, Nat.sub_eq_zero_of_le h, Nat.min_zero]
  rfl

/-- While there is room, the buffer takes what fits into it. -/
theorem fillPostBuffer_room {contentLength : Nat} {b : PostBuffer} (h : b.filled < contentLength)
    {data : Bytes} (hdata : data ≠ []) :
    ∃ b', fillPostBuffer contentLength b data = some b'
      ∧ b'.filled = min (b.filled + data.length) contentLength
      ∧ load b'.mem b.filled (b'.filled - b.filled) = data.take (contentLength - b.filled)
      ∧ ∀ i, i < b.filled ∨ b'.filled ≤ i → b'.mem i = b.mem i := by
  have hpos := List.length_pos_of_ne_nil hdata
  have hsize : min data.length (contentLength - b.filled) ≠ 0 := by omega
  have htake : data.take (min data.length (contentLength - b.filled))
      = data.take (contentLength - b.filled) := by
    rw [List.take_eq_take_iff]
    omega
  have hlen : b.filled + min data.length (contentLength - b.filled) - b.filled
      = (data.take (contentLength - b.filled)).length := by
    rw [List.length_take]
    omega
  refine ⟨_, if_pos hsize, ?_, ?_, fun i hi => ?_⟩
  · dsimp only
    omega
  · dsimp only
    rw [htake, hlen, load_store]
  · rcases hi with hi | hi
    · exact store_of_lt hi
    · -- no more is stored than is counted
      refine store_of_ge (le_trans ?_ hi)
      rw [List.length_take]
      dsimp only
      omega

/-- A body is refused when a record comes and the buffer is full. -/
theorem fillAll_eq_none {contentLength : Nat} {b : PostBuffer} {rs : List Bytes}
    (hroom : b.filled ≤ contentLength) (hrs : ∀ r ∈ rs, r ≠ []) :
    fillAll contentLength b rs = none
      ↔ ∃ pre r post, rs = pre ++ r :: post ∧ contentLength ≤ b.filled + pre.flatten.length := by
  induction rs generalizing b with
  | nil => simp [fillAll]
  | cons r rs ih =>
      rw [fillAll]
      by_cases hlt : b.filled < contentLength
      · obtain ⟨b₁, hb₁, hfilled, -, -⟩ := fillPostBuffer_room hlt (hrs r (List.mem_cons_self ..))
        have hnone := ih (b := b₁) (by omega) fun r hr => hrs r (List.mem_cons_of_mem _ hr)
        rw [hb₁, Option.bind_some]
        refine hnone.trans ⟨?_, ?_⟩
        · rintro ⟨pre, r', post, rfl, hfull⟩
          refine ⟨r :: pre, r', post, rfl, ?_⟩
          rw [List.flatten_cons, List.length_append]
          omega
        · rintro ⟨pre, r', post, hsplit, hfull⟩
          cases pre with
          | nil =>
              rw [List.flatten_nil, List.length_nil] at hfull
              omega
          | cons r'' pre =>
              rw [List.cons_append, List.cons.injEq] at hsplit
              obtain ⟨rfl, rfl⟩ := hsplit
              rw [List.flatten_cons, List.length_append] at hfull
              exact ⟨pre, r', post, rfl, by omega⟩
      · rw [fillPostBuffer_full (by omega), Option.bind_none]
        refine iff_of_true rfl ⟨[], r, rs, rfl, ?_⟩
        simp only [List.flatten_nil, List.length_nil]
        omega

/-- What is taken of a body are its first bytes, as many as there is room
for. -/
theorem fillAll_taken {contentLength : Nat} {b b' : PostBuffer} {rs : List Bytes}
    (hroom : b.filled ≤ contentLength) (hrs : ∀ r ∈ rs, r ≠ [])
    (h : fillAll contentLength b rs = some b') :
    b'.filled = min (b.filled + rs.flatten.length) contentLength
      ∧ load b'.mem b.filled (b'.filled - b.filled) = rs.flatten.take (contentLength - b.filled)
      ∧ ∀ i, i < b.filled ∨ b'.filled ≤ i → b'.mem i = b.mem i := by
  induction rs generalizing b with
  | nil =>
      cases h
      refine ⟨by simp [hroom], by simp, fun i _ => rfl⟩
  | cons r rs ih =>
      rw [fillAll] at h
      by_cases hlt : b.filled < contentLength
      · obtain ⟨b₁, hb₁, hfilled, hload, hframe⟩ :=
          fillPostBuffer_room hlt (hrs r (List.mem_cons_self ..))
        rw [hb₁, Option.bind_some] at h
        obtain ⟨hfilled', hload', hframe'⟩ :=
          ih (by omega) (fun r hr => hrs r (List.mem_cons_of_mem _ hr)) h
        refine ⟨?_, ?_, fun i hi => ?_⟩
        · rw [List.flatten_cons, List.length_append]
          omega
        · rw [show b'.filled - b.filled = (b₁.filled - b.filled) + (b'.filled - b₁.filled) by omega,
            load_add, load_congr fun i _ hi => hframe' i (.inl (by omega)), hload,
            show b.filled + (b₁.filled - b.filled) = b₁.filled by omega, hload',
            List.flatten_cons, List.take_append]
          congr 2
          omega
        · rcases hi with hi | hi
          · rw [hframe' i (.inl (by omega)), hframe i (.inl hi)]
          · rw [hframe' i (.inr hi), hframe i (.inr (by omega))]
      · rw [fillPostBuffer_full (by omega)] at h
        cases h

/-- A body is taken until a record comes when the buffer is full. What is
taken are its first bytes, as many as there is room for, and the memory on
both sides of them, behind the buffer too, is as it was. -/
theorem fillAll_spec {contentLength : Nat} {b : PostBuffer} {rs : List Bytes}
    (hroom : b.filled ≤ contentLength) (hrs : ∀ r ∈ rs, r ≠ []) :
    (fillAll contentLength b rs = none
        ↔ ∃ pre r post, rs = pre ++ r :: post ∧ contentLength ≤ b.filled + pre.flatten.length)
      ∧ ∀ b', fillAll contentLength b rs = some b' →
        b'.filled = min (b.filled + rs.flatten.length) contentLength
          ∧ load b'.mem b.filled (b'.filled - b.filled)
            = rs.flatten.take (contentLength - b.filled)
          ∧ ∀ i, i < b.filled ∨ b'.filled ≤ i ∨ contentLength ≤ i → b'.mem i = b.mem i := by
  refine ⟨fillAll_eq_none hroom hrs, fun b' h => ?_⟩
  obtain ⟨hfilled, hload, hframe⟩ := fillAll_taken hroom hrs h
  refine ⟨hfilled, hload, fun i hi => ?_⟩
  rcases hi with hi | hi | hi
  · exact hframe i (.inl hi)
  · exact hframe i (.inr hi)
  · exact hframe i (.inr (by omega))

/-- The second record is cut; a third one would come too late. -/
theorem fillAll_spec_full :
    (fillAll 3 { mem := fun _ => 0 } [[1, 2], [3, 4]]).map (fun b => (b.filled, b.mem 2, b.mem 3))
        = some (3, 3, 0)
      ∧ (fillAll 3 { mem := fun _ => 0 } [[1, 2], [3, 4]] = none
        ↔ ∃ pre r post, ([[1, 2], [3, 4]] : List Bytes) = pre ++ r :: post
          ∧ 3 ≤ 0 + pre.flatten.length)
      ∧ ∀ b', fillAll 3 { mem := fun _ => 0 } [[1, 2], [3, 4]] = some b' →
        b'.filled = min (0 + ([[1, 2], [3, 4]] : List Bytes).flatten.length) 3
          ∧ load b'.mem 0 (b'.filled - 0) = ([[1, 2], [3, 4]] : List Bytes).flatten.take (3 - 0)
          ∧ ∀ i, i < 0 ∨ b'.filled ≤ i ∨ 3 ≤ i → b'.mem i = 0 :=
  ⟨by decide, fillAll_spec (b := { mem := fun _ => 0 }) (by decide) (by decide)⟩

/-- A form that comes in records of any sizes is read as it was written. -/
theorem parsePostsUrlEncoded_fillAll {ws : List (WrittenField '&'.toUInt8)}
    (hblanks : ∀ w ∈ ws, w.blanks = 0) {rs : List Bytes} (hrs : ∀ r ∈ rs, r ≠ [])
    (hbody : rs.flatten = ['&'.toUInt8].intercalate (ws.map WrittenField.toBytes))
    (mem : Nat → UInt8) (posts : Posts) :
    ∃ b, fillAll rs.flatten.length { mem } rs = some b
      ∧ parsePostsUrlEncoded b.mem rs.flatten.length posts
        = ws.foldl (fun (posts : Posts) (w : WrittenField '&'.toUInt8) =>
            posts.setForm w.name w.value) posts := by
  have hroom : ({ mem } : PostBuffer).filled ≤ rs.flatten.length := Nat.zero_le _
  cases hfill : fillAll rs.flatten.length { mem } rs with
  | none =>
      obtain ⟨pre, r, post, rfl, hfull⟩ := (fillAll_eq_none hroom hrs).mp hfill
      have hpos := List.length_pos_of_ne_nil (hrs r (by simp))
      rw [List.flatten_append, List.flatten_cons, List.length_append, List.length_append] at hfull
      dsimp only at hfull
      omega
  | some b =>
      obtain ⟨hfilled, hload, -⟩ := fillAll_taken hroom hrs hfill
      dsimp only at hfilled hload
      refine ⟨b, rfl, ?_⟩
      rw [Nat.zero_add, Nat.min_self] at hfilled
      rw [hfilled, Nat.sub_zero, List.take_length] at hload
      rw [parsePostsUrlEncoded_eq, hload, hbody, fields_written (.inl rfl), List.foldl_map]
      refine List.foldl_ext _ _ _ fun posts w hw => ?_
      have hlabel : w.label = w.rawName := by
        rw [WrittenField.label, hblanks w hw, List.replicate_zero, List.nil_append]
      dsimp only
      rw [hlabel, w.name_escapes.decode, w.value_escapes.decode]

theorem parsePostsUrlEncoded_fillAll_cut :
    ∃ b, fillAll [bytes "q=%6", bytes "1+b"].flatten.length { mem := fun _ => 0 }
          [bytes "q=%6", bytes "1+b"] = some b
      ∧ parsePostsUrlEncoded b.mem [bytes "q=%6", bytes "1+b"].flatten.length (fun _ => none)
        = [writtenCookie '&'.toUInt8 (.inl rfl)].foldl
            (fun (posts : Posts) (w : WrittenField '&'.toUInt8) => posts.setForm w.name w.value)
            fun _ => none := by
  have hblanks : ∀ w ∈ [writtenCookie '&'.toUInt8 (.inl rfl)], w.blanks = 0 := by
    simp [writtenCookie]
  have hrs : ∀ r ∈ [bytes "q=%6", bytes "1+b"], r ≠ [] := by decide
  exact parsePostsUrlEncoded_fillAll hblanks hrs rfl _ _

end Simurga
