import Simurga.Template

/-!
# Printing a template and reading it back

The concrete syntax of the token tree and the round trip through the
parser. `Token.Printable` says which trees have a concrete syntax at all
(no markers, text that is not mistaken for a tag, trimmed names), and
`Token.Prints` relates a tree to each of its spellings: blanks may stand
anywhere around the body of a tag.

The parser side is one lemma for each thing it can meet at a position:
`getNextToken_string` for a run of text and `getNextToken_tag` for a tag,
however it is padded. The round trip is then a mutual induction over the
tree, with the position invariant that everything before `pos` is an
arbitrary prefix and everything behind the printed part an arbitrary rest.
-/

namespace Simurga

/-! ## Concrete syntax -/

/-- `s` is the tag `<%body%>`, with blanks around the body. -/
def Tag (body s : Bytes) : Prop :=
  ∃ l r : Bytes, (∀ c ∈ l, isBlank c = true) ∧ (∀ c ∈ r, isBlank c = true)
    ∧ s = bytes "<%" ++ (l ++ body ++ r) ++ bytes "%>"

/-- A name a tag can carry: not empty, trimmed, without the closing bracket. -/
structure IsName (name : Bytes) : Prop where
  ne_nil : name ≠ []
  trimmed : trim name = name
  no_close : ¬ bytes "%>" <:+: name

mutual

/-- The trees with a concrete syntax. -/
def Token.Printable : Token → Prop
  | .string data => data ≠ [] ∧ ¬ bytes "<%" <:+: data
  | .var data => IsName data ∧ data.head? ≠ some '#'.toUInt8
  | .ifElse data ifTrue ifFalse => IsName data ∧ PrintableAll ifTrue ∧ PrintableAll ifFalse
  | .foreach data body sep => IsName data ∧ PrintableAll body ∧ PrintableAll sep
  | .sepMark => False
  | .endMark => False
  | .elseMark => False

/-- A list of such trees in which no two texts are neighbours. -/
def PrintableAll : TokenList → Prop
  | [] => True
  | token :: tokens =>
      token.Printable ∧ (token.type = .tokenString → ∀ next ∈ tokens.head?, next.type ≠ .tokenString)
        ∧ PrintableAll tokens

end

mutual

/-- `s` spells the token. -/
def Token.Prints : Token → Bytes → Prop
  | .string data, s => s = data
  | .var data, s => Tag data s
  | .ifElse data ifTrue ifFalse, s =>
      ∃ s₁ s₂ s₃ s₄, s = s₁ ++ (s₂ ++ (s₃ ++ s₄)) ∧ Tag (bytes "#if " ++ data) s₁
        ∧ PrintsAll ifTrue s₂ ∧ PrintsSecond (bytes "#else") ifFalse s₃ ∧ Tag (bytes "#end") s₄
  | .foreach data body sep, s =>
      ∃ s₁ s₂ s₃ s₄, s = s₁ ++ (s₂ ++ (s₃ ++ s₄)) ∧ Tag (bytes "#for " ++ data) s₁
        ∧ PrintsAll body s₂ ∧ PrintsSecond (bytes "#sep") sep s₃ ∧ Tag (bytes "#end") s₄
  | .sepMark, _ => False
  | .endMark, _ => False
  | .elseMark, _ => False

/-- The second list of a block: nothing at all when it is empty. -/
def PrintsSecond (marker : Bytes) : TokenList → Bytes → Prop
  | [], s => s = []
  | token :: tokens, s =>
      ∃ s₁ s₂ s₃, s = s₁ ++ (s₂ ++ s₃) ∧ Tag marker s₁ ∧ token.Prints s₂ ∧ PrintsAll tokens s₃

/-- `s` spells the list. -/
def PrintsAll : TokenList → Bytes → Prop
  | [], s => s = []
  | token :: tokens, s => ∃ s₁ s₂, s = s₁ ++ s₂ ∧ token.Prints s₁ ∧ PrintsAll tokens s₂

end

/-- `<%body%>`. -/
def tag (body : Bytes) : Bytes := bytes "<%" ++ body ++ bytes "%>"

mutual

/-- The spelling without blanks. -/
def Token.print : Token → Bytes
  | .string data => data
  | .var data => tag data
  | .ifElse data ifTrue ifFalse =>
      tag (bytes "#if " ++ data) ++ (printAll ifTrue
        ++ (printSecond (bytes "#else") ifFalse ++ tag (bytes "#end")))
  | .foreach data body sep =>
      tag (bytes "#for " ++ data) ++ (printAll body
        ++ (printSecond (bytes "#sep") sep ++ tag (bytes "#end")))
  | .sepMark => []
  | .endMark => []
  | .elseMark => []

def printSecond (marker : Bytes) : TokenList → Bytes
  | [] => []
  | token :: tokens => tag marker ++ (token.print ++ printAll tokens)

def printAll : TokenList → Bytes
  | [] => []
  | token :: tokens => token.print ++ printAll tokens

end

/-- A template tree: a list of printable tokens. -/
structure TemplateTree where
  tokens : TokenList
  printable : PrintableAll tokens

def TemplateTree.print (t : TemplateTree) : Bytes := printAll t.tokens

def TemplateTree.Prints (t : TemplateTree) (s : Bytes) : Prop := PrintsAll t.tokens s

/-! ## The parser at a position -/

theorem Tag.length_ge {body s : Bytes} (h : Tag body s) : 4 + body.length ≤ s.length := by
  obtain ⟨l, r, -, -, rfl⟩ := h
  simp [bytes]
  omega

theorem tag_tag (body : Bytes) : Tag body (tag body) :=
  ⟨[], [], by simp, by simp, by simp [tag]⟩

theorem bytes_open : bytes "<%" = [60, 37] := rfl

theorem bytes_close : bytes "%>" = [37, 62] := rfl

/-- A run of text up to the next tag or the end of the input. -/
theorem getNextToken_string {data rest : Bytes} (hne : data ≠ []) (hfree : ¬ bytes "<%" <:+: data)
    (hrest : rest = [] ∨ ∃ r, rest = bytes "<%" ++ r) (fuel : Nat) (pre : Bytes) :
    getNextToken (fuel + 1) (pre ++ (data ++ rest)) pre.length
      = .ok (.string data, pre.length + data.length) := by
  have hfind : (find "<%" (pre ++ (data ++ rest)) pre.length).getD
      (pre ++ (data ++ rest)).length = pre.length + data.length := by
    rw [bytes_open] at hfree
    rcases hrest with rfl | ⟨r, rfl⟩
    · rw [find, bytes_open, Search.find_append, List.append_nil,
        Search.indexOf?_eq_none (by simp) hfree]
      simp
    · rw [find, bytes_open, List.cons_append, List.cons_append, List.nil_append,
        Search.find_pair (by decide) hfree, Option.getD_some]
  have hlen : 0 < data.length := List.length_pos_of_ne_nil hne
  rw [getNextToken]
  simp only [hfind]
  rw [if_pos (by omega), Nat.add_sub_cancel_left, substr_append]

/-- A tag, padded in any way: the parser goes on from its trimmed body,
behind it. -/
theorem getNextToken_tag {body s : Bytes} (hs : Tag body s) (htrim : trim body = body)
    (hclose : ¬ bytes "%>" <:+: body) (fuel : Nat) (pre rest : Bytes) :
    getNextToken (fuel + 1) (pre ++ (s ++ rest)) pre.length
      = tagToken (parseSubtokens fuel (pre ++ (s ++ rest))) body (pre.length + s.length) := by
  obtain ⟨l, r, hl, hr, rfl⟩ := hs
  have hcut : trim (l ++ body ++ r) = body := Search.trim_pad hl hr htrim
  have hblank : ∀ {x : Bytes}, (∀ c ∈ x, isBlank c = true) → 37 ∉ x ∧ 62 ∉ x := fun hx =>
    ⟨fun hm => absurd (hx _ hm) (by decide), fun hm => absurd (hx _ hm) (by decide)⟩
  have hfree : ¬ [37, 62] <:+: l ++ body ++ r :=
    Search.pair_not_infix_pad (hblank hl).1 (hblank hr).2 (hblank hl).2 (hblank hr).1 hclose
  -- from here on the padded body is opaque
  generalize hinner : l ++ body ++ r = inner at *
  have hsplit : pre ++ (bytes "<%" ++ inner ++ bytes "%>" ++ rest)
      = (pre ++ [60, 37]) ++ (inner ++ 37 :: 62 :: rest) := by
    simp [bytes_open, bytes_close]
  have hpos : pre.length + 2 = (pre ++ [(60 : UInt8), 37]).length := by simp
  have hopen : find "<%" (pre ++ (bytes "<%" ++ inner ++ bytes "%>" ++ rest)) pre.length
      = some pre.length := by
    rw [find, Search.find_append, bytes_open]
    simp [Search.indexOf?]
  have hend : find "%>" (pre ++ (bytes "<%" ++ inner ++ bytes "%>" ++ rest)) (pre.length + 2)
      = some (pre.length + 2 + inner.length) := by
    rw [hsplit, hpos, find, bytes_close, Search.find_pair (by decide) hfree]
  have hbody : substr (pre ++ (bytes "<%" ++ inner ++ bytes "%>" ++ rest)) (pre.length + 2)
      inner.length = inner := by
    rw [hsplit, hpos, substr_append]
  rw [getNextToken]
  simp only [hopen, hend, Option.getD_some, ne_eq, not_true_eq_false, if_false]
  rw [Nat.add_sub_cancel_left, hbody, hcut]
  congr 1
  simp only [bytes_open, bytes_close, List.length_append, List.length_cons, List.length_nil]
  omega

/-! ## Tag bodies -/

/-- The marker tokens and the tag bodies that make them. -/
inductive IsMarker : Token → Bytes → Prop where
  | endMark : IsMarker .endMark (bytes "#end")
  | sepMark : IsMarker .sepMark (bytes "#sep")
  | elseMark : IsMarker .elseMark (bytes "#else")

theorem IsMarker.trimmed {m : Token} {body : Bytes} (h : IsMarker m body) : trim body = body := by
  cases h <;> decide

theorem IsMarker.no_close {m : Token} {body : Bytes} (h : IsMarker m body) :
    ¬ bytes "%>" <:+: body := by
  cases h <;> decide

theorem IsMarker.tagToken {m : Token} {body : Bytes} (h : IsMarker m body) (sub : Subtokens)
    (pos : Nat) : tagToken sub body pos = .ok (m, pos) := by
  cases h <;> rfl

theorem tagToken_variable {data : Bytes} (hne : data ≠ []) (hhead : data.head? ≠ some '#'.toUInt8)
    (sub : Subtokens) (pos : Nat) : tagToken sub data pos = .ok (.var data, pos) := by
  rw [tagToken, if_neg hne, if_pos hhead]

/-- A body starting with `#` and a letter other than those of the three
markers falls through to the blocks. -/
theorem tagToken_block {c : UInt8} {rest : Bytes} (hc : c ≠ 101 ∧ c ≠ 115) (sub : Subtokens)
    (pos : Nat) :
    tagToken sub (35 :: c :: rest) pos
      = if substr (35 :: c :: rest) 0 3 = bytes "#if" then do
          let name ← substrFrom (35 :: c :: rest) 4
          let (ifTrue, ifFalse, pos) ← parseBlock sub .tokenElse pos
          pure (.ifElse (trim name) ifTrue ifFalse, pos)
        else if substr (35 :: c :: rest) 0 4 = bytes "#for" then do
          let name ← substrFrom (35 :: c :: rest) 5
          let (body, sep, pos) ← parseBlock sub .tokenSeparator pos
          pure (.foreach (trim name) body sep, pos)
        else .error (.runtimeError (bytes "invalid template special tag")) := by
  obtain ⟨he, hs⟩ := hc
  have hend : bytes "#end" = [35, 101, 110, 100] := rfl
  have hsep : bytes "#sep" = [35, 115, 101, 112] := rfl
  have helse : bytes "#else" = [35, 101, 108, 115, 101] := rfl
  have hhash : '#'.toUInt8 = 35 := rfl
  rw [tagToken, if_neg (by simp), if_neg (by simp [hhash]), if_neg (by simp [hend, he]),
    if_neg (by simp [hsep, hs]), if_neg (by simp [helse, he])]

/-- `#if` with anything behind it. -/
theorem tagToken_if (c : UInt8) (name : Bytes) (sub : Subtokens) (pos : Nat) :
    tagToken sub (bytes "#if" ++ c :: name) pos
      = (parseBlock sub .tokenElse pos).map fun (a, b, pos) => (.ifElse (trim name) a b, pos) := by
  have hbody : bytes "#if" ++ c :: name = 35 :: 105 :: (102 :: c :: name) := rfl
  have hif : bytes "#if" = [35, 105, 102] := rfl
  have hrest : substrFrom (35 :: 105 :: (102 :: c :: name)) 4 = .ok name := by
    simp [substrFrom]
  rw [hbody, tagToken_block (by decide), if_pos (by simp [substr, hif]), hrest]
  cases parseBlock sub .tokenElse pos <;> rfl

theorem tagToken_for (c : UInt8) (name : Bytes) (sub : Subtokens) (pos : Nat) :
    tagToken sub (bytes "#for" ++ c :: name) pos
      = (parseBlock sub .tokenSeparator pos).map fun (a, b, pos) => (.foreach (trim name) a b, pos) := by
  have hbody : bytes "#for" ++ c :: name = 35 :: 102 :: (111 :: 114 :: c :: name) := rfl
  have hif : bytes "#if" = [35, 105, 102] := rfl
  have hfor : bytes "#for" = [35, 102, 111, 114] := rfl
  have hrest : substrFrom (35 :: 102 :: (111 :: 114 :: c :: name)) 5 = .ok name := by
    simp [substrFrom]
  rw [hbody, tagToken_block (by decide), if_neg (by simp [substr, hif]),
    if_pos (by simp [substr, hfor]), hrest]
  cases parseBlock sub .tokenSeparator pos <;> rfl

/-- The body that opens a block is a tag body like any other. -/
theorem opener_trimmed {word name : Bytes} (hword : word = bytes "#if " ∨ word = bytes "#for ")
    (hname : IsName name) : trim (word ++ name) = word ++ name := by
  rcases hword with rfl | rfl
  · exact Search.trim_append (by decide) (by decide) hname.ne_nil hname.trimmed
  · exact Search.trim_append (by decide) (by decide) hname.ne_nil hname.trimmed

theorem opener_no_close {word name : Bytes} (hword : word = bytes "#if " ∨ word = bytes "#for ")
    (hname : IsName name) : ¬ bytes "%>" <:+: word ++ name := by
  intro h
  rcases Search.pair_infix_append h with h | h | ⟨h, -⟩
  · rcases hword with rfl | rfl <;> exact absurd h (by decide)
  · exact hname.no_close h
  · rcases hword with rfl | rfl <;> exact absurd h (by decide)

/-! ## The round trip -/

/-- No printable token is one of the two markers a list stops at. -/
def StopsAt (end1 end2 : TokenType) : Prop :=
  ∀ t : Token, t.Printable → t.type ≠ end1 ∧ t.type ≠ end2

theorem stopsAt_end {mid : TokenType}
    (h : mid = .tokenElse ∨ mid = .tokenSeparator ∨ mid = .tokenNone) : StopsAt .tokenEnd mid := by
  intro t ht
  cases t with
  | string => rcases h with rfl | rfl | rfl <;> simp [Token.type]
  | var => rcases h with rfl | rfl | rfl <;> simp [Token.type]
  | foreach => rcases h with rfl | rfl | rfl <;> simp [Token.type]
  | ifElse => rcases h with rfl | rfl | rfl <;> simp [Token.type]
  | sepMark => exact ht.elim
  | endMark => exact ht.elim
  | elseMark => exact ht.elim

/-- What follows a text: the end of the input or a tag. -/
def TagAhead (rest : Bytes) : Prop := rest = [] ∨ ∃ r, rest = bytes "<%" ++ r

theorem Tag.ahead {body s : Bytes} (h : Tag body s) (rest : Bytes) : TagAhead (s ++ rest) := by
  obtain ⟨l, r, -, -, rfl⟩ := h
  exact Or.inr ⟨(l ++ body ++ r) ++ bytes "%>" ++ rest, by simp⟩

/-- The spelling of anything but a text starts with a tag. -/
theorem Token.Prints.ahead {t : Token} {s : Bytes} (h : t.Prints s) (ht : t.type ≠ .tokenString)
    (rest : Bytes) : TagAhead (s ++ rest) := by
  cases t with
  | string => exact absurd rfl ht
  | var => exact Tag.ahead h rest
  | foreach =>
      obtain ⟨s₁, s₂, s₃, s₄, rfl, hs, -⟩ := h
      rw [List.append_assoc]
      exact hs.ahead _
  | ifElse =>
      obtain ⟨s₁, s₂, s₃, s₄, rfl, hs, -⟩ := h
      rw [List.append_assoc]
      exact hs.ahead _
  | sepMark => exact h.elim
  | endMark => exact h.elim
  | elseMark => exact h.elim

/-- What the list parser does with a spelled list that a marker follows. -/
def Reads (tokens : TokenList) (s : Bytes) : Prop :=
  ∀ (m : Token) (body mark pre rest : Bytes) (end1 end2 : TokenType) (fuel : Nat),
    IsMarker m body → Tag body mark → m.type = end1 ∨ m.type = end2 → StopsAt end1 end2 →
    2 * (s.length + mark.length) ≤ fuel →
    parseSubtokens fuel (pre ++ (s ++ (mark ++ rest))) pre.length end1 end2
      = .ok (tokens, m.type, pre.length + (s.length + mark.length))

/-- The marker itself, read as a token. -/
theorem getNextToken_marker {m : Token} {body mark : Bytes} (hm : IsMarker m body)
    (hmark : Tag body mark) (fuel : Nat) (pre rest : Bytes) :
    getNextToken (fuel + 1) (pre ++ (mark ++ rest)) pre.length
      = .ok (m, pre.length + mark.length) := by
  rw [getNextToken_tag hmark hm.trimmed hm.no_close, hm.tagToken]

theorem reads_nil : Reads [] [] := by
  intro m body mark pre rest end1 end2 fuel hm hmark hstop _ hfuel
  have hlen := hmark.length_ge
  obtain ⟨n, rfl⟩ : ∃ n, fuel = n + 2 := ⟨fuel - 2, by omega⟩
  rw [parseSubtokens, if_pos (by simp; omega), List.nil_append, getNextToken_marker hm hmark]
  simp [bind, Except.bind, pure, Except.pure, hstop]

/-- One more token in front. -/
theorem reads_cons {t : Token} {tokens : TokenList} {s₁ s₂ : Bytes} (ht : t.Printable)
    (hne : s₁ ≠ [])
    (hget : ∀ (fuel : Nat) (pre rest : Bytes), 2 * s₁.length ≤ fuel → TagAhead rest ∨ t.type ≠ .tokenString →
      getNextToken fuel (pre ++ (s₁ ++ rest)) pre.length = .ok (t, pre.length + s₁.length))
    (hahead : t.type = .tokenString → ∀ rest, TagAhead rest → TagAhead (s₂ ++ rest))
    (hrest : Reads tokens s₂) : Reads (t :: tokens) (s₁ ++ s₂) := by
  intro m body mark pre rest end1 end2 fuel hm hmark hstop hends hfuel
  rw [List.length_append] at hfuel
  have hpos : 0 < s₁.length := List.length_pos_of_ne_nil hne
  obtain ⟨n, rfl⟩ : ∃ n, fuel = n + 1 := ⟨fuel - 1, by have := hmark.length_ge; omega⟩
  have hstep : getNextToken n (pre ++ (s₁ ++ (s₂ ++ (mark ++ rest)))) pre.length
      = .ok (t, pre.length + s₁.length) := by
    refine hget n pre _ (by have := hmark.length_ge; omega) ?_
    by_cases hstr : t.type = .tokenString
    · exact Or.inl (hahead hstr _ (hmark.ahead rest))
    · exact Or.inr hstr
  have htail := hrest m body mark (pre ++ s₁) rest end1 end2 n hm hmark hstop hends (by omega)
  rw [List.append_assoc, List.length_append] at htail
  rw [List.append_assoc, parseSubtokens, if_pos (by simp; omega), hstep]
  simp only [bind, Except.bind]
  rw [if_neg (by simp [hends t ht]), htail]
  simp only [pure, Except.pure, List.length_append]
  congr 3
  omega

/-- A block behind its opening tag: the second list is read exactly when
it was spelled. -/
theorem parseBlock_reads {m : Token} {midBody : Bytes} {first second : TokenList}
    {s₂ s₃ s₄ : Bytes} (hm : IsMarker m midBody) (hmid : m.type ≠ .tokenEnd)
    (hfirst : Reads first s₂) (hsecond : ∀ s, PrintsAll second s → Reads second s)
    (h₃ : PrintsSecond midBody second s₃) (h₄ : Tag (bytes "#end") s₄) (pre rest : Bytes)
    (fuel : Nat) (hfuel : 2 * (s₂.length + (s₃.length + s₄.length)) ≤ fuel) :
    parseBlock (parseSubtokens fuel (pre ++ (s₂ ++ (s₃ ++ (s₄ ++ rest))))) m.type pre.length
      = .ok (first, second, pre.length + (s₂.length + (s₃.length + s₄.length))) := by
  have hends : StopsAt .tokenEnd m.type := by
    refine stopsAt_end ?_
    cases hm with
    | endMark => exact absurd rfl hmid
    | sepMark => exact Or.inr (Or.inl rfl)
    | elseMark => exact Or.inl rfl
  rw [parseBlock]
  cases second with
  | nil =>
      obtain rfl : s₃ = [] := h₃
      simp only [List.length_nil, Nat.zero_add] at hfuel ⊢
      have h := hfirst .endMark _ s₄ pre rest .tokenEnd m.type fuel .endMark h₄ (Or.inl rfl)
        hends hfuel
      rw [List.nil_append, h]
      simp only [bind, Except.bind]
      rw [if_neg (by simpa [Token.type] using hmid.symm)]
      rfl
  | cons t ts =>
      obtain ⟨sm, s₅, s₆, rfl, hsm, ht, hts⟩ := h₃
      simp only [List.length_append] at hfuel ⊢
      have h := hfirst m midBody sm pre (s₅ ++ (s₆ ++ (s₄ ++ rest))) .tokenEnd m.type fuel hm hsm
        (Or.inr rfl) hends (by omega)
      have h' := hsecond (s₅ ++ s₆) ⟨s₅, s₆, rfl, ht, hts⟩ .endMark _ s₄ (pre ++ (s₂ ++ sm)) rest
        .tokenEnd .tokenNone fuel .endMark h₄ (Or.inl rfl)
        (stopsAt_end (Or.inr (Or.inr rfl))) (by simp only [List.length_append]; omega)
      simp only [List.append_assoc, List.length_append] at h h' ⊢
      rw [h]
      simp only [bind, Except.bind, if_true]
      rw [h']
      simp only [pure, Except.pure]
      congr 3
      omega

theorem Token.Prints.ne_nil {t : Token} {s : Bytes} (ht : t.Printable) (h : t.Prints s) :
    s ≠ [] := by
  by_cases hstr : t.type = .tokenString
  · cases t with
    | string data => exact fun hs => ht.1 (h ▸ hs)
    | _ => cases hstr
  · rintro rfl
    rcases h.ahead hstr [] with h0 | ⟨r, hr⟩
    · cases t with
      | var data => exact absurd (Tag.length_ge h) (by simp)
      | ifElse data a b =>
          obtain ⟨s₁, s₂, s₃, s₄, hs, hs₁, -⟩ := h
          have := hs₁.length_ge
          have := congrArg List.length hs
          simp only [List.length_append, List.length_nil] at this
          omega
      | foreach data a b =>
          obtain ⟨s₁, s₂, s₃, s₄, hs, hs₁, -⟩ := h
          have := hs₁.length_ge
          have := congrArg List.length hs
          simp only [List.length_append, List.length_nil] at this
          omega
      | string => exact hstr rfl
      | _ => exact ht.elim
    · simp [bytes_open] at hr

/-- Behind a text comes a tag: its neighbour in the list is not a text. -/
theorem PrintsAll.ahead {tokens : TokenList} {s : Bytes} (h : PrintsAll tokens s)
    (hnext : ∀ next ∈ tokens.head?, next.type ≠ .tokenString) {rest : Bytes}
    (hrest : TagAhead rest) : TagAhead (s ++ rest) := by
  cases tokens with
  | nil =>
      obtain rfl : s = [] := h
      exact hrest
  | cons u us =>
      obtain ⟨s₁, s₂, rfl, hu, -⟩ := h
      rw [List.append_assoc]
      exact hu.ahead (hnext u rfl) _

mutual

/-- The token at `pos` is the one that was spelled there. -/
theorem getNextToken_prints : ∀ (t : Token) {s : Bytes}, t.Printable → t.Prints s →
    ∀ (fuel : Nat) (pre rest : Bytes), 2 * s.length ≤ fuel →
      TagAhead rest ∨ t.type ≠ .tokenString →
      getNextToken fuel (pre ++ (s ++ rest)) pre.length = .ok (t, pre.length + s.length)
  | .string data, s, ht, hs, fuel, pre, rest, hfuel, hrest => by
      obtain rfl : s = data := hs
      have hlen : 0 < s.length := List.length_pos_of_ne_nil ht.1
      obtain ⟨n, rfl⟩ : ∃ n, fuel = n + 1 := ⟨fuel - 1, by omega⟩
      exact getNextToken_string ht.1 ht.2 (hrest.resolve_right (by simp [Token.type])) n pre
  | .var data, s, ht, hs, fuel, pre, rest, hfuel, _ => by
      have hlen := Tag.length_ge hs
      obtain ⟨n, rfl⟩ : ∃ n, fuel = n + 1 := ⟨fuel - 1, by omega⟩
      rw [getNextToken_tag hs ht.1.trimmed ht.1.no_close, tagToken_variable ht.1.ne_nil ht.2]
  | .ifElse data ifTrue ifFalse, s, ht, hs, fuel, pre, rest, hfuel, _ => by
      obtain ⟨s₁, s₂, s₃, s₄, rfl, h₁, h₂, h₃, h₄⟩ := hs
      obtain ⟨hname, htrue, hfalse⟩ := ht
      have hlen := h₁.length_ge
      simp only [List.length_append] at hfuel
      obtain ⟨n, rfl⟩ : ∃ n, fuel = n + 1 := ⟨fuel - 1, by omega⟩
      have hblock := parseBlock_reads .elseMark (by decide) (reads_printsAll ifTrue htrue h₂)
        (fun s' => reads_printsAll ifFalse hfalse (s := s')) h₃ h₄ (pre ++ s₁) rest n (by omega)
      simp only [List.append_assoc, List.length_append, Token.type] at hblock ⊢
      rw [getNextToken_tag h₁ (opener_trimmed (Or.inl rfl) hname) (opener_no_close (Or.inl rfl) hname),
        show bytes "#if " ++ data = bytes "#if" ++ ' '.toUInt8 :: data from rfl, tagToken_if, hblock]
      simp only [Except.map, hname.trimmed]
      congr 2
      omega
  | .foreach data body sep, s, ht, hs, fuel, pre, rest, hfuel, _ => by
      obtain ⟨s₁, s₂, s₃, s₄, rfl, h₁, h₂, h₃, h₄⟩ := hs
      obtain ⟨hname, hbody, hsep⟩ := ht
      have hlen := h₁.length_ge
      simp only [List.length_append] at hfuel
      obtain ⟨n, rfl⟩ : ∃ n, fuel = n + 1 := ⟨fuel - 1, by omega⟩
      have hblock := parseBlock_reads .sepMark (by decide) (reads_printsAll body hbody h₂)
        (fun s' => reads_printsAll sep hsep (s := s')) h₃ h₄ (pre ++ s₁) rest n (by omega)
      simp only [List.append_assoc, List.length_append, Token.type] at hblock ⊢
      rw [getNextToken_tag h₁ (opener_trimmed (Or.inr rfl) hname) (opener_no_close (Or.inr rfl) hname),
        show bytes "#for " ++ data = bytes "#for" ++ ' '.toUInt8 :: data from rfl, tagToken_for, hblock]
      simp only [Except.map, hname.trimmed]
      congr 2
      omega
  | .sepMark, _, ht, _, _, _, _, _, _ => ht.elim
  | .endMark, _, ht, _, _, _, _, _, _ => ht.elim
  | .elseMark, _, ht, _, _, _, _, _, _ => ht.elim

/-- A spelled list is read up to the marker behind it. -/
theorem reads_printsAll : ∀ (tokens : TokenList) {s : Bytes}, PrintableAll tokens →
    PrintsAll tokens s → Reads tokens s
  | [], s, _, hs => by
      obtain rfl : s = [] := hs
      exact reads_nil
  | t :: ts, s, ⟨ht, hnext, hts⟩, hs => by
      obtain ⟨s₁, s₂, rfl, h₁, h₂⟩ := hs
      exact reads_cons ht (h₁.ne_nil ht) (getNextToken_prints t ht h₁)
        (fun hstr rest hrest => h₂.ahead (hnext hstr) hrest) (reads_printsAll ts hts h₂)

end

/-- The loop of `parse` reads a spelled list up to the end of the input. -/
theorem parseLoop_prints : ∀ (tokens : TokenList) {s : Bytes}, PrintableAll tokens →
    PrintsAll tokens s → ∀ (fuel : Nat) (pre : Bytes), 2 * s.length < fuel →
      parseLoop fuel (pre ++ s) pre.length = .ok tokens
  | [], s, _, hs, fuel, pre, hfuel => by
      obtain rfl : s = [] := hs
      obtain ⟨n, rfl⟩ : ∃ n, fuel = n + 1 := ⟨fuel - 1, by omega⟩
      rw [parseLoop, if_neg (by simp)]
      rfl
  | t :: ts, s, ⟨ht, hnext, hts⟩, hs, fuel, pre, hfuel => by
      obtain ⟨s₁, s₂, rfl, h₁, h₂⟩ := hs
      have hpos : 0 < s₁.length := List.length_pos_of_ne_nil (h₁.ne_nil ht)
      rw [List.length_append] at hfuel
      obtain ⟨n, rfl⟩ : ∃ n, fuel = n + 1 := ⟨fuel - 1, by omega⟩
      have hget := getNextToken_prints t ht h₁ n pre s₂ (by omega) (by
        by_cases hstr : t.type = .tokenString
        · exact Or.inl (by simpa using h₂.ahead (hnext hstr) (Or.inl rfl))
        · exact Or.inr hstr)
      have hrest := parseLoop_prints ts hts h₂ n (pre ++ s₁) (by omega)
      rw [List.append_assoc, List.length_append] at hrest
      rw [parseLoop, if_pos (by simp; omega), hget]
      simp only [bind, Except.bind]
      rw [hrest]
      rfl

mutual

theorem Token.print_prints : ∀ (t : Token), t.Printable → t.Prints t.print
  | .string _, _ => rfl
  | .var data, _ => tag_tag data
  | .ifElse _ ifTrue ifFalse, ⟨_, htrue, hfalse⟩ =>
      ⟨_, _, _, _, rfl, tag_tag _, printAll_prints ifTrue htrue,
        printSecond_prints _ ifFalse hfalse, tag_tag _⟩
  | .foreach _ body sep, ⟨_, hbody, hsep⟩ =>
      ⟨_, _, _, _, rfl, tag_tag _, printAll_prints body hbody, printSecond_prints _ sep hsep,
        tag_tag _⟩
  | .sepMark, ht => ht.elim
  | .endMark, ht => ht.elim
  | .elseMark, ht => ht.elim

theorem printSecond_prints (marker : Bytes) : ∀ (tokens : TokenList), PrintableAll tokens →
    PrintsSecond marker tokens (printSecond marker tokens)
  | [], _ => rfl
  | t :: ts, ⟨ht, _, hts⟩ =>
      ⟨_, _, _, rfl, tag_tag _, t.print_prints ht, printAll_prints ts hts⟩

theorem printAll_prints : ∀ (tokens : TokenList), PrintableAll tokens →
    PrintsAll tokens (printAll tokens)
  | [], _ => rfl
  | t :: ts, ⟨ht, _, hts⟩ => ⟨_, _, rfl, t.print_prints ht, printAll_prints ts hts⟩

end

/-- Every spelling of a template tree parses to exactly that tree, the
spelling without blanks among them. -/
theorem parse_print (t : TemplateTree) :
    parse t.print = .ok t.tokens ∧ ∀ s, t.Prints s → parse s = .ok t.tokens := by
  have hspelled : ∀ s, t.Prints s → parse s = .ok t.tokens := fun s hs =>
    parseLoop_prints t.tokens t.printable hs (parseFuel s) [] (by simp [parseFuel])
  exact ⟨hspelled _ (printAll_prints t.tokens t.printable), hspelled⟩

/-- A text that ends in half a bracket, and blanks inside the tags. -/
def sampleTree : TemplateTree where
  tokens := [.string (bytes "a<"), .ifElse (bytes "x") [.var (bytes "y%")] []]
  printable := by
    have hname : ∀ name ∈ [bytes "x", bytes "y%"], IsName name := by
      intro name h
      rcases List.mem_cons.mp h with rfl | h
      · exact ⟨by decide, by decide, by decide⟩
      · obtain rfl := List.mem_singleton.mp h
        exact ⟨by decide, by decide, by decide⟩
    refine ⟨⟨by decide, by decide⟩, fun _ next hnext => ?_, ?_⟩
    · obtain rfl := Option.some.inj hnext
      simp [Token.type]
    · exact ⟨⟨hname _ (by simp), ⟨⟨hname _ (by simp), by decide⟩, by simp, trivial⟩, trivial⟩,
        by simp, trivial⟩

theorem parse_print_sampleTree :
    parse (bytes "a<<%#if x%><%\t y%%><% #end%>") = .ok sampleTree.tokens :=
  (parse_print sampleTree).2 _
    ⟨bytes "a<", _, rfl, rfl, _, [], rfl,
      ⟨bytes "<%#if x%>", bytes "<%\t y%%>", [], bytes "<% #end%>", rfl,
        ⟨[], [], by simp, by simp, rfl⟩,
        ⟨_, [], rfl, ⟨bytes "\t ", [], by decide +kernel, by simp, rfl⟩, rfl⟩, rfl,
        ⟨bytes " ", [], by decide +kernel, by simp, rfl⟩⟩, rfl⟩

end Simurga
