import Simurga.TemplateStructure

/-!
# Scopes of a template

What a template means, by the scopes its names are looked up in: each
`#for` puts its item in front of the scopes for its body. `ScopeRule` says
which scopes a body and a separator see. The template engine hands on one
item at most, so it follows `innermost` (`yield_render`), in which a body
forgets the items around it and a separator sees none. Lexical scopes are
`nested`; the two are the same as long as no `#for` stands in the body of
another (`render_nested`).
-/

namespace Simurga

/-! ## The meaning of a template -/

/-- The items that the body of a `#for` and its separator see, from those
that the `#for` sees. -/
structure ScopeRule where
  body : List Item → Item → List Item
  sep : List Item → List Item

/-- Lexical scopes. -/
def ScopeRule.nested : ScopeRule where
  body scopes item := item :: scopes
  sep scopes := scopes

/-- The item of the innermost `#for`, and none between its items. -/
def ScopeRule.innermost : ScopeRule where
  body _ item := [item]
  sep _ := []

/-- The first scope that has the name, then the global arguments. -/
def lookup (arguments : ArgumentList) (scopes : List Item) (name : Bytes) : Bytes :=
  match scopes.findSome? (· name) with
  | some value => value
  | none => ((arguments name).map TemplateArgument.toString).getD []

/-- The items of an array argument. -/
def itemsOf (arguments : ArgumentList) (name : Bytes) : List Item :=
  match arguments name with
  | some (.array items) => items
  | _ => []

mutual

/-- The text a token stands for; markers stand for none. -/
def Token.render (rule : ScopeRule) (arguments : ArgumentList) (scopes : List Item) : Token → Bytes
  | .string data => data
  | .var data => lookup arguments scopes data
  | .foreach data body sep =>
      List.intercalate (renderAll rule arguments (rule.sep scopes) sep)
        ((itemsOf arguments data).map fun item =>
          renderAll rule arguments (rule.body scopes item) body)
  | .ifElse data ifTrue ifFalse =>
      if lookup arguments scopes data ≠ [] then renderAll rule arguments scopes ifTrue
      else renderAll rule arguments scopes ifFalse
  | .sepMark | .endMark | .elseMark => []

def renderAll (rule : ScopeRule) (arguments : ArgumentList) (scopes : List Item) : TokenList → Bytes
  | [] => []
  | t :: ts => t.render rule arguments scopes ++ renderAll rule arguments scopes ts

end

/-! ## The engine -/

/-- `get_variable` looks in one item at most. -/
theorem getVariable_eq_lookup (arguments : ArgumentList) (arrayItem : Option Item) (name : Bytes) :
    getVariable arguments arrayItem name = lookup arguments arrayItem.toList name := by
  unfold getVariable lookup
  have hscope : arrayItem.toList.findSome? (· name) = arrayItem.bind (· name) := by
    cases arrayItem with
    | none => rfl
    | some item => simp
  rw [hscope]
  cases arrayItem.bind (· name) with
  | some value => rfl
  | none => cases arguments name <;> rfl

/-- What is no array has no items. -/
theorem yieldToken_foreach (arguments : ArgumentList) (arrayItem : Option Item) (data : Bytes)
    (body sep : TokenList) :
    yieldToken arguments arrayItem (.foreach data body sep)
      = yieldItems (yieldTokens arguments none sep)
          (fun item => yieldTokens arguments (some item) body) 0 (itemsOf arguments data) := by
  rw [yieldToken, itemsOf]
  cases arguments data with
  | none => rfl
  | some argument => cases argument <;> rfl

/-- The loop of `yield_foreach`, when nothing throws. -/
theorem yieldItems_intercalate (sep : Bytes) (body : Item → Bytes) (items : List Item) (i : Nat) :
    yieldItems (.ok sep) (fun item => .ok (body item)) i items
      = .ok (if 0 < i ∧ items ≠ [] then sep ++ List.intercalate sep (items.map body)
          else List.intercalate sep (items.map body)) := by
  induction items generalizing i with
  | nil => simp [yieldItems]
  | cons item items ih =>
      have hcons : List.intercalate sep ((item :: items).map body)
          = body item ++ if items ≠ [] then sep ++ List.intercalate sep (items.map body)
            else List.intercalate sep (items.map body) := by
        cases items with
        | nil => simp
        | cons item' items => rw [List.map_cons, List.intercalate_cons_of_ne_nil (by simp)]; simp
      rw [yieldItems, ih (i + 1), hcons]
      by_cases hi : 0 < i
      · simp [hi, bind, Except.bind, pure, Except.pure]
      · simp [hi, bind, Except.bind, pure, Except.pure]

mutual

theorem yieldToken_render (arguments : ArgumentList) : ∀ (t : Token) (arrayItem : Option Item),
    t.Balanced →
      yieldToken arguments arrayItem t = .ok (t.render .innermost arguments arrayItem.toList)
  | .string _, _, _ => by rw [yieldToken, Token.render]
  | .var _, _, _ => by rw [yieldToken, Token.render, getVariable_eq_lookup]
  | .foreach data body sep, arrayItem, ⟨hbody, hsep⟩ => by
      have hitem : (fun item => yieldTokens arguments (some item) body)
          = fun item => .ok (renderAll .innermost arguments [item] body) :=
        funext fun item => yieldTokens_render arguments body (some item) hbody
      have hbetween := yieldTokens_render arguments sep none hsep
      rw [yieldToken_foreach, Token.render, hbetween, hitem, yieldItems_intercalate, if_neg (by simp)]
      rfl
  | .ifElse data ifTrue ifFalse, arrayItem, ⟨htrue, hfalse⟩ => by
      rw [yieldToken, Token.render, getVariable_eq_lookup]
      by_cases hvalue : lookup arguments arrayItem.toList data = []
      · rw [if_pos hvalue, if_neg (not_not_intro hvalue)]
        exact yieldTokens_render arguments ifFalse arrayItem hfalse
      · rw [if_neg hvalue, if_pos hvalue]
        exact yieldTokens_render arguments ifTrue arrayItem htrue
  | .sepMark, _, h => h.elim
  | .endMark, _, h => h.elim
  | .elseMark, _, h => h.elim

theorem yieldTokens_render (arguments : ArgumentList) : ∀ (ts : TokenList) (arrayItem : Option Item),
    BalancedAll ts →
      yieldTokens arguments arrayItem ts = .ok (renderAll .innermost arguments arrayItem.toList ts)
  | [], _, _ => by rw [yieldTokens, renderAll]
  | t :: ts, arrayItem, ⟨ht, hts⟩ => by
      rw [yieldTokens, renderAll, yieldToken_render arguments t arrayItem ht,
        yieldTokens_render arguments ts arrayItem hts]
      rfl

end

/-! ## Lexical scopes -/

mutual

/-- There is no `#for` in the token. -/
def Token.Straight : Token → Prop
  | .foreach _ _ _ => False
  | .ifElse _ ifTrue ifFalse => StraightAll ifTrue ∧ StraightAll ifFalse
  | .string _ | .var _ | .sepMark | .endMark | .elseMark => True

def StraightAll : TokenList → Prop
  | [] => True
  | t :: ts => t.Straight ∧ StraightAll ts

end

mutual

/-- No `#for` stands in the body of another. -/
def Token.Shallow : Token → Prop
  | .foreach _ body sep => StraightAll body ∧ ShallowAll sep
  | .ifElse _ ifTrue ifFalse => ShallowAll ifTrue ∧ ShallowAll ifFalse
  | .string _ | .var _ | .sepMark | .endMark | .elseMark => True

def ShallowAll : TokenList → Prop
  | [] => True
  | t :: ts => t.Shallow ∧ ShallowAll ts

end

section Rules

variable (arguments : ArgumentList)

mutual

/-- Without a `#for` there is one list of scopes. -/
theorem Token.Straight.render (rule rule' : ScopeRule) (scopes : List Item) : ∀ {t : Token},
    t.Straight → t.render rule arguments scopes = t.render rule' arguments scopes
  | .string _, _ => by rw [Token.render, Token.render]
  | .var _, _ => by rw [Token.render, Token.render]
  | .ifElse _ _ _, ⟨htrue, hfalse⟩ => by
      rw [Token.render, Token.render, htrue.render rule rule' scopes, hfalse.render rule rule' scopes]
  | .sepMark, _ => by rw [Token.render, Token.render]
  | .endMark, _ => by rw [Token.render, Token.render]
  | .elseMark, _ => by rw [Token.render, Token.render]
  | .foreach _ _ _, h => h.elim

theorem StraightAll.render (rule rule' : ScopeRule) (scopes : List Item) : ∀ {ts : TokenList},
    StraightAll ts → renderAll rule arguments scopes ts = renderAll rule' arguments scopes ts
  | [], _ => by rw [renderAll, renderAll]
  | _ :: _, ⟨ht, hts⟩ => by
      rw [renderAll, renderAll, ht.render rule rule' scopes, hts.render rule rule' scopes]

end

mutual

theorem Token.Shallow.render : ∀ {t : Token}, t.Shallow →
    t.render ScopeRule.innermost arguments [] = t.render ScopeRule.nested arguments []
  | .string _, _ => by rw [Token.render, Token.render]
  | .var _, _ => by rw [Token.render, Token.render]
  | .foreach _ body sep, ⟨hbody, hsep⟩ => by
      have hitem : (fun item => renderAll .innermost arguments (ScopeRule.innermost.body [] item) body)
          = fun item => renderAll .nested arguments (ScopeRule.nested.body [] item) body :=
        funext fun item => hbody.render arguments .innermost .nested [item]
      rw [Token.render, Token.render, hitem]
      exact congrArg (List.intercalate · _) hsep.render
  | .ifElse _ _ _, ⟨htrue, hfalse⟩ => by
      rw [Token.render, Token.render, htrue.render, hfalse.render]
  | .sepMark, _ => by rw [Token.render, Token.render]
  | .endMark, _ => by rw [Token.render, Token.render]
  | .elseMark, _ => by rw [Token.render, Token.render]

theorem ShallowAll.render : ∀ {ts : TokenList}, ShallowAll ts →
    renderAll .innermost arguments [] ts = renderAll .nested arguments [] ts
  | [], _ => by rw [renderAll, renderAll]
  | _ :: _, ⟨ht, hts⟩ => by rw [renderAll, renderAll, ht.render, hts.render]

end

end Rules

/-- A balanced template renders by the item of the innermost `#for` and the
global arguments, with separators by the global arguments only; these are
lexical scopes as long as no `#for` stands in the body of another. -/
theorem yield_render {tokens : TokenList} (h : BalancedAll tokens) (arguments : ArgumentList) :
    yield tokens arguments = .ok (renderAll .innermost arguments [] tokens)
    ∧ (ShallowAll tokens → yield tokens arguments = .ok (renderAll .nested arguments [] tokens)) := by
  have hyield := yieldTokens_render arguments tokens none h
  exact ⟨hyield, fun hshallow => hyield.trans (by rw [Option.toList_none, hshallow.render])⟩

/-- A list with a separator: `a` has two items, the second without `x`. -/
def sampleArguments : ArgumentList := fun name =>
  if name = bytes "a" then
    some (.array [fun key => if key = bytes "x" then some (bytes "1") else none, fun _ => none])
  else if name = bytes "b" then some (.array [fun _ => none, fun _ => none])
  else if name = bytes "x" then some (.string (bytes "0"))
  else none

theorem yield_render_sample :
    yield [.foreach (bytes "a") [.var (bytes "x")] [.string (bytes ","), .var (bytes "x")]] sampleArguments
      = .ok (bytes "1,00") :=
  (yield_render (by simp [BalancedAll, Token.Balanced]) sampleArguments).1

/-- `x` in a `#for` inside that of `a`, and in its separator, is not the
`x` of the item of `a`. -/
theorem yield_not_nested :
    parse (bytes "<%#for a%><%#for b%>-<%#sep%><%x%><%#end%><%#end%>")
      = .ok [.foreach (bytes "a") [.foreach (bytes "b") [.string (bytes "-")] [.var (bytes "x")]] []]
    ∧ yield [.foreach (bytes "a") [.foreach (bytes "b") [.string (bytes "-")] [.var (bytes "x")]] []]
        sampleArguments = .ok (bytes "-0--0-")
    ∧ renderAll .nested sampleArguments []
        [.foreach (bytes "a") [.foreach (bytes "b") [.string (bytes "-")] [.var (bytes "x")]] []]
      = bytes "-1--0-"
    ∧ yield [.foreach (bytes "a") [.foreach (bytes "b") [.var (bytes "x")] []] []] sampleArguments
      = .ok (bytes "0000")
    ∧ renderAll .nested sampleArguments []
        [.foreach (bytes "a") [.foreach (bytes "b") [.var (bytes "x")] []] []] = bytes "1100" :=
  ⟨rfl, rfl, rfl, rfl, rfl⟩

end Simurga
