import Simurga.TemplateGrammar

/-!
# Markers left in a parsed template

`parse_subtokens` stops at the markers its caller names and keeps every
other one as a token, so a parsed tree may hold `#end`, `#sep` and
`#else`; `yield_token` refuses them when rendering gets there.
`ConfinedAll` says where a parsed tree can hold one, `StuckAll` whether
the arguments lead rendering to one. Both follow the tree, and each
renders or parses by the same induction as the function it describes.
-/

namespace Simurga

/-! ## Where a marker can stand -/

mutual

/-- No list inside the token holds a marker that its own parser stops at. -/
def Token.Confined : Token → Prop
  | .ifElse _ ifTrue ifFalse =>
      ConfinedAll .tokenEnd .tokenElse ifTrue ∧ ConfinedAll .tokenEnd .tokenNone ifFalse
  | .foreach _ body sep =>
      ConfinedAll .tokenEnd .tokenSeparator body ∧ ConfinedAll .tokenEnd .tokenNone sep
  | .string _ | .var _ | .sepMark | .endMark | .elseMark => True

def ConfinedAll (end1 end2 : TokenType) : TokenList → Prop
  | [] => True
  | t :: ts => ¬ (t.type = end1 ∨ t.type = end2) ∧ t.Confined ∧ ConfinedAll end1 end2 ts

end

mutual

/-- No marker anywhere in the token. -/
def Token.Balanced : Token → Prop
  | .ifElse _ ifTrue ifFalse => BalancedAll ifTrue ∧ BalancedAll ifFalse
  | .foreach _ body sep => BalancedAll body ∧ BalancedAll sep
  | .string _ | .var _ => True
  | .sepMark | .endMark | .elseMark => False

def BalancedAll : TokenList → Prop
  | [] => True
  | t :: ts => t.Balanced ∧ BalancedAll ts

end

mutual

/-- Rendering the token gets to a marker. -/
def Token.Stuck (arguments : ArgumentList) (arrayItem : Option Item) : Token → Prop
  | .ifElse data ifTrue ifFalse =>
      getVariable arguments arrayItem data ≠ [] ∧ StuckAll arguments arrayItem ifTrue
        ∨ getVariable arguments arrayItem data = [] ∧ StuckAll arguments arrayItem ifFalse
  | .foreach data body sep =>
      ∃ items, arguments data = some (.array items)
        ∧ ((∃ item ∈ items, StuckAll arguments (some item) body)
          ∨ 2 ≤ items.length ∧ StuckAll arguments none sep)
  | .string _ | .var _ => False
  | .sepMark | .endMark | .elseMark => True

def StuckAll (arguments : ArgumentList) (arrayItem : Option Item) : TokenList → Prop
  | [] => False
  | t :: ts => t.Stuck arguments arrayItem ∨ StuckAll arguments arrayItem ts

end

/-! ## Parsing -/

mutual

theorem TokenAt.confined {data : Bytes} : ∀ {pos pos' : Nat} {t : Token},
    TokenAt data pos t pos' → t.Confined
  | _, _, _, .string _ _ => trivial
  | _, _, _, .tag _ _ h => h.confined

theorem TagAt.confined {data : Bytes} : ∀ {body : Bytes} {pos pos' : Nat} {t : Token},
    TagAt data body pos t pos' → t.Confined
  | _, _, _, _, .var _ _ => trivial
  | _, _, _, _, .marker hm => by cases hm <;> trivial
  | _, _, _, _, .ifElse _ _ h => h.confined
  | _, _, _, _, .foreach _ _ h => h.confined

theorem BlockAt.confined {data : Bytes} : ∀ {mid : TokenType} {pos pos' : Nat}
    {first second : TokenList}, BlockAt data mid pos first second pos' →
      ConfinedAll .tokenEnd mid first ∧ ConfinedAll .tokenEnd .tokenNone second
  | _, _, _, _, _, .one h _ => ⟨h.confined, trivial⟩
  | _, _, _, _, _, .two h h' => ⟨h.confined, h'.confined⟩

theorem ListAt.confined {data : Bytes} : ∀ {end1 end2 stop : TokenType} {pos pos' : Nat}
    {tokens : TokenList}, ListAt data end1 end2 pos tokens stop pos' →
      ConfinedAll end1 end2 tokens
  | _, _, _, _, _, _, .stop _ _ _ => trivial
  | _, _, _, _, _, _, .cons _ h hkeep hrest => ⟨hkeep, h.confined, hrest.confined⟩

end

theorem Token.type_ne_none (t : Token) : ¬ (t.type = .tokenNone ∨ t.type = .tokenNone) := by
  cases t <;> simp [Token.type]

theorem ParseAt.confined {data : Bytes} : ∀ {pos : Nat} {tokens : TokenList},
    ParseAt data pos tokens → ConfinedAll .tokenNone .tokenNone tokens
  | _, _, .eof _ => trivial
  | _, _, .cons _ h hrest => ⟨Token.type_ne_none _, h.confined, hrest.confined⟩

/-! ## Rendering -/

/-- `yield_token` on a marker. -/
def structureError : Thrown := .runtimeError (bytes "invalid template structure")

/-- The text, or the structure error exactly if `stuck`. -/
def YieldsUnless (stuck : Prop) (r : Except Thrown Bytes) : Prop :=
  (¬ stuck ∧ ∃ s, r = .ok s) ∨ (stuck ∧ r = .error structureError)

theorem YieldsUnless.congr {p q : Prop} {r : Except Thrown Bytes} (h : YieldsUnless p r)
    (hpq : p ↔ q) : YieldsUnless q r := by
  unfold YieldsUnless at h ⊢
  rwa [← hpq]

theorem yieldsUnless_ok (s : Bytes) : YieldsUnless False (.ok s) := Or.inl ⟨id, s, rfl⟩

theorem yieldsUnless_error : YieldsUnless True (.error structureError) := Or.inr ⟨trivial, rfl⟩

/-- One text behind the other: the first failure wins. -/
theorem YieldsUnless.append {p q : Prop} {x y : Except Thrown Bytes} (hx : YieldsUnless p x)
    (hy : YieldsUnless q y) :
    YieldsUnless (p ∨ q) (do let a ← x; let b ← y; pure (a ++ b)) := by
  rcases hx with ⟨hp, a, rfl⟩ | ⟨hp, rfl⟩
  · rcases hy with ⟨hq, b, rfl⟩ | ⟨hq, rfl⟩
    · exact Or.inl ⟨by simp [hp, hq], a ++ b, rfl⟩
    · exact Or.inr ⟨Or.inr hq, rfl⟩
  · exact Or.inr ⟨Or.inl hp, rfl⟩

theorem yieldItems_cons (sep : Except Thrown Bytes) (body : Item → Except Thrown Bytes) (i : Nat)
    (item : Item) (items : List Item) :
    yieldItems sep body i (item :: items)
      = (do
          let here ← (do
            let before ← (if 0 < i then sep else .ok [])
            let b ← body item
            pure (before ++ b))
          let after ← yieldItems sep body (i + 1) items
          pure (here ++ after)) := by
  rw [yieldItems]
  by_cases hi : 0 < i
  · rw [if_pos hi, if_pos hi]
    cases sep <;> cases body item <;> rfl
  · rw [if_neg hi, if_neg hi]
    cases body item <;> rfl

/-- The loop of `yield_foreach`: the separator counts only between items. -/
theorem yieldItems_yields {p : Prop} {q : Item → Prop} {sep : Except Thrown Bytes}
    {body : Item → Except Thrown Bytes} (hsep : YieldsUnless p sep)
    (hbody : ∀ item, YieldsUnless (q item) (body item)) : ∀ (i : Nat) (items : List Item),
    YieldsUnless ((∃ item ∈ items, q item) ∨ 2 ≤ items.length + min i 1 ∧ items ≠ [] ∧ p)
      (yieldItems sep body i items)
  | i, [] => (yieldsUnless_ok []).congr (by simp)
  | i, item :: items => by
      have hrest := yieldItems_yields hsep hbody (i + 1) items
      have hbefore : YieldsUnless (0 < i ∧ p) (if 0 < i then sep else .ok []) := by
        by_cases hi : 0 < i
        · rw [if_pos hi]
          exact hsep.congr (by simp [hi])
        · rw [if_neg hi]
          exact (yieldsUnless_ok []).congr (by simp [hi])
      rw [yieldItems_cons]
      refine ((hbefore.append (hbody item)).append hrest).congr ?_
      -- the separator runs before this item or before a later one
      have hlater : 2 ≤ items.length + min (i + 1) 1 ↔ items ≠ [] := by
        cases items <;> simp
      have hany : 2 ≤ (item :: items).length + min i 1 ↔ 0 < i ∨ items ≠ [] := by
        cases items with
        | nil => simp; omega
        | cons => simp; omega
      have hcons : item :: items ≠ [] := List.cons_ne_nil item items
      rw [List.exists_mem_cons_iff, hlater, hany]
      simp only [hcons, ne_eq, not_false_eq_true, true_and]
      generalize (∃ item ∈ items, q item) = later
      tauto

mutual

theorem yieldToken_yields (arguments : ArgumentList) : ∀ (t : Token) (arrayItem : Option Item),
    YieldsUnless (t.Stuck arguments arrayItem) (yieldToken arguments arrayItem t)
  | .string data, _ => yieldsUnless_ok data
  | .var data, arrayItem => yieldsUnless_ok (getVariable arguments arrayItem data)
  | .foreach data body sep, arrayItem => by
      rw [yieldToken]
      split
      · rename_i items hitems
        refine (yieldItems_yields (yieldTokens_yields arguments sep none)
          (fun item => yieldTokens_yields arguments body (some item)) 0 items).congr ?_
        rw [Token.Stuck]
        constructor
        · rintro (hbody | ⟨hlen, -, hsep⟩)
          · exact ⟨items, hitems, Or.inl hbody⟩
          · exact ⟨items, hitems, Or.inr ⟨hlen, hsep⟩⟩
        · rintro ⟨items', hitems', h⟩
          obtain rfl : items = items' := by simpa using hitems.symm.trans hitems'
          rcases h with hbody | ⟨hlen, hsep⟩
          · exact Or.inl hbody
          · exact Or.inr ⟨hlen, by rintro rfl; simp at hlen, hsep⟩
      · rename_i hnone
        refine (yieldsUnless_ok []).congr ?_
        rw [Token.Stuck]
        exact ⟨False.elim, fun ⟨items, hitems, _⟩ => hnone items hitems⟩
  | .ifElse data ifTrue ifFalse, arrayItem => by
      rw [yieldToken]
      by_cases hvalue : getVariable arguments arrayItem data = []
      · rw [if_pos hvalue]
        exact (yieldTokens_yields arguments ifFalse arrayItem).congr (by simp [Token.Stuck, hvalue])
      · rw [if_neg hvalue]
        exact (yieldTokens_yields arguments ifTrue arrayItem).congr (by simp [Token.Stuck, hvalue])
  | .sepMark, _ => yieldsUnless_error
  | .endMark, _ => yieldsUnless_error
  | .elseMark, _ => yieldsUnless_error

theorem yieldTokens_yields (arguments : ArgumentList) : ∀ (ts : TokenList) (arrayItem : Option Item),
    YieldsUnless (StuckAll arguments arrayItem ts) (yieldTokens arguments arrayItem ts)
  | [], _ => yieldsUnless_ok []
  | t :: ts, arrayItem => by
      rw [yieldTokens]
      exact (yieldToken_yields arguments t arrayItem).append (yieldTokens_yields arguments ts arrayItem)

end

mutual

theorem Token.Balanced.not_stuck {arguments : ArgumentList} : ∀ {t : Token}
    {arrayItem : Option Item}, t.Balanced → ¬ t.Stuck arguments arrayItem
  | .string _, _, _, h => h
  | .var _, _, _, h => h
  | .foreach _ _ _, _, ⟨hbody, hsep⟩, h => by
      obtain ⟨items, -, ⟨item, -, hstuck⟩ | ⟨-, hstuck⟩⟩ := h
      · exact hbody.not_stuck hstuck
      · exact hsep.not_stuck hstuck
  | .ifElse _ _ _, _, ⟨htrue, hfalse⟩, h => by
      rcases h with ⟨-, hstuck⟩ | ⟨-, hstuck⟩
      · exact htrue.not_stuck hstuck
      · exact hfalse.not_stuck hstuck
  | .sepMark, _, h, _ => h
  | .endMark, _, h, _ => h
  | .elseMark, _, h, _ => h

theorem BalancedAll.not_stuck {arguments : ArgumentList} : ∀ {ts : TokenList}
    {arrayItem : Option Item}, BalancedAll ts → ¬ StuckAll arguments arrayItem ts
  | [], _, _, h => h
  | _ :: _, _, ⟨ht, hts⟩, h => h.elim ht.not_stuck hts.not_stuck

end

/-! ## The two together -/

/-- A template that loads renders unless the arguments lead to a marker,
and then it throws the structure error and nothing else. The markers left
are those the list they stand in does not stop at; where there are none,
every argument list renders. -/
theorem yield_of_parse {data : Bytes} {tokens : TokenList} (h : parse data = .ok tokens)
    (arguments : ArgumentList) :
    ((∃ s, yield tokens arguments = .ok s) ∨ yield tokens arguments = .error structureError)
    ∧ (yield tokens arguments = .error structureError ↔ StuckAll arguments none tokens)
    ∧ ConfinedAll .tokenNone .tokenNone tokens
    ∧ (BalancedAll tokens → ∃ s, yield tokens arguments = .ok s) := by
  refine ⟨?_, ?_, (parse_sound h).confined, fun hbal => ?_⟩
  · rcases yieldTokens_yields arguments tokens none with ⟨-, hs⟩ | ⟨-, hs⟩
    · exact Or.inl hs
    · exact Or.inr hs
  · unfold yield
    rcases yieldTokens_yields arguments tokens none with ⟨hfree, s, hs⟩ | ⟨hstuck, hs⟩
    · simp [hs, hfree]
    · simp [hs, hstuck]
  · rcases yieldTokens_yields arguments tokens none with ⟨-, hs⟩ | ⟨hstuck, -⟩
    · exact hs
    · exact absurd hstuck hbal.not_stuck

/-- A separator marker in a branch that the empty `x` does not take. -/
theorem yield_of_parse_sample :
    ConfinedAll .tokenNone .tokenNone [.ifElse (bytes "x") [.sepMark] []]
      ∧ (yield [.ifElse (bytes "x") [.sepMark] []] (fun _ => none) = .error structureError ↔ False) := by
  have hparse : parse (bytes "<%#if x%><%#sep%><%#end%>")
      = .ok [.ifElse (bytes "x") [.sepMark] []] := rfl
  have h := yield_of_parse hparse (fun _ => none)
  refine ⟨h.2.2.1, h.2.1.trans ?_⟩
  simp [StuckAll, Token.Stuck, getVariable]

/-- `<%#end%>` alone loads and cannot be rendered. -/
theorem parse_stray_end :
    parse (bytes "<%#end%>") = .ok [.endMark]
      ∧ yield [.endMark] (fun _ => none) = .error (.runtimeError (bytes "invalid template structure")) :=
  ⟨rfl, rfl⟩

end Simurga
