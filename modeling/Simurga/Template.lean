import Simurga.Common

/-!
# The template engine

`template.cpp`: the recursive-descent parser of `PageTemplate` and the
rendering of the token tree it builds.

The parser keeps the source's shape: a position into the whole text that
every token moves forward, and a list parser that stops at the markers
its caller names and keeps every other token, markers included. The two
functions call each other, so both carry fuel; `parse` hands out enough
of it for any input (two units for each byte that is left).

`std::map` is modelled by its lookup function.
-/

namespace Simurga

/-! ## Tokens -/

/-- `PageTemplate::TokenType`. -/
inductive TokenType where
  | tokenNone | tokenString | tokenVariable | tokenForeach | tokenSeparator | tokenEnd | tokenIf
  | tokenElse
deriving DecidableEq

/-- `PageTemplate::Token` with its children `ForeachToken` and `IfToken`. -/
inductive Token where
  | string (data : Bytes)
  | var (data : Bytes)
  | foreach (data : Bytes) (body sep : List Token)
  | ifElse (data : Bytes) (ifTrue ifFalse : List Token)
  | sepMark
  | endMark
  | elseMark

abbrev TokenList := List Token

namespace Token

def type : Token → TokenType
  | .string _ => .tokenString
  | .var _ => .tokenVariable
  | .foreach _ _ _ => .tokenForeach
  | .ifElse _ _ _ => .tokenIf
  | .sepMark => .tokenSeparator
  | .endMark => .tokenEnd
  | .elseMark => .tokenElse

end Token

/-! ## Parsing -/

/-- `parse_subtokens` as `get_next_token` calls it: a position and the
two marker types to stop at. -/
abbrev Subtokens := Nat → TokenType → TokenType → Except Thrown (TokenList × TokenType × Nat)

/-- The two token lists of a block: the second one is there only when the
first ends at the marker `mid`. -/
def parseBlock (subtokens : Subtokens) (mid : TokenType) (pos : Nat) :
    Except Thrown (TokenList × TokenList × Nat) := do
  let (first, stop, pos) ← subtokens pos .tokenEnd mid
  if stop = mid then
    let (second, _, pos) ← subtokens pos .tokenEnd .tokenNone
    pure (first, second, pos)
  else
    pure (first, [], pos)

/-- `get_next_token` from the trimmed tag body on; `pos` is behind the tag. -/
def tagToken (subtokens : Subtokens) (body : Bytes) (pos : Nat) : Except Thrown (Token × Nat) :=
  if body = [] then .error (.runtimeError (bytes "invalid template"))
  else if body.head? ≠ some '#'.toUInt8 then .ok (.var body, pos)
  else if body = bytes "#end" then .ok (.endMark, pos)
  else if body = bytes "#sep" then .ok (.sepMark, pos)
  else if body = bytes "#else" then .ok (.elseMark, pos)
  else if substr body 0 3 = bytes "#if" then do
    let name ← substrFrom body 4
    let (ifTrue, ifFalse, pos) ← parseBlock subtokens .tokenElse pos
    pure (.ifElse (trim name) ifTrue ifFalse, pos)
  else if substr body 0 4 = bytes "#for" then do
    let name ← substrFrom body 5
    let (body, sep, pos) ← parseBlock subtokens .tokenSeparator pos
    pure (.foreach (trim name) body sep, pos)
  else .error (.runtimeError (bytes "invalid template special tag"))

mutual

/-- `PageTemplate::get_next_token`: the token at `pos` and the position
behind it. -/
def getNextToken : Nat → Bytes → Nat → Except Thrown (Token × Nat)
  | 0, _, _ => .error .outOfFuel
  | fuel + 1, data, pos =>
      let specPos := (find "<%" data pos).getD data.length
      if specPos ≠ pos then
        .ok (.string (substr data pos (specPos - pos)), specPos)
      else
        match find "%>" data (specPos + 2) with
        | none => .error (.runtimeError (bytes "invalid template"))
        | some specEnd =>
            tagToken (parseSubtokens fuel data)
              (trim (substr data (specPos + 2) (specEnd - (specPos + 2)))) (specEnd + 2)

/-- `PageTemplate::parse_subtokens`: the tokens up to the first one of
type `end1` or `end2`, which of the two it was, and the position behind it. -/
def parseSubtokens : Nat → Bytes → Subtokens
  | 0, _, _, _, _ => .error .outOfFuel
  | fuel + 1, data, pos, end1, end2 =>
      if pos < data.length then do
        let (token, pos) ← getNextToken fuel data pos
        if token.type = end1 ∨ token.type = end2 then pure ([], token.type, pos)
        else
          let (rest, stop, pos) ← parseSubtokens fuel data pos end1 end2
          pure (token :: rest, stop, pos)
      else .error (.runtimeError (bytes "unexpected eof"))

end

/-- The loop of `PageTemplate::parse`. -/
def parseLoop : Nat → Bytes → Nat → Except Thrown TokenList
  | 0, _, _ => .error .outOfFuel
  | fuel + 1, data, pos =>
      if pos < data.length then do
        let (token, pos) ← getNextToken fuel data pos
        let rest ← parseLoop fuel data pos
        pure (token :: rest)
      else pure []

/-- Fuel enough for the text from any position on. -/
def parseFuel (data : Bytes) : Nat := 2 * data.length + 2

/-- `PageTemplate::parse`: the body of the template. -/
def parse (data : Bytes) : Except Thrown TokenList := parseLoop (parseFuel data) data 0

/-! ## Arguments -/

/-- `ArrayArgument::Item`. -/
abbrev Item := Bytes → Option Bytes

/-- `TemplateArgument`: a `StringArgument` or an `ArrayArgument`. -/
inductive TemplateArgument where
  | string (value : Bytes)
  | array (items : List Item)

/-- `TemplateArgument::to_string`: an array has no text. -/
def TemplateArgument.toString : TemplateArgument → Bytes
  | .string value => value
  | .array _ => []

abbrev ArgumentList := Bytes → Option TemplateArgument

/-- `add_argument`. -/
def addArgument (args : ArgumentList) (name value : Bytes) : ArgumentList :=
  Function.update args name (some (.string value))

/-! ## Rendering -/

/-- `PageTemplate::get_variable`. -/
def getVariable (arguments : ArgumentList) (arrayItem : Option Item) (var : Bytes) : Bytes :=
  match arrayItem.bind (· var) with
  | some value => value
  | none =>
      match arguments var with
      | some argument => argument.toString
      | none => []

/-- The loop of `PageTemplate::yield_foreach`: the body once for each
item, the separator before every item but the first. -/
def yieldItems (sep : Except Thrown Bytes) (body : Item → Except Thrown Bytes) :
    Nat → List Item → Except Thrown Bytes
  | _, [] => .ok []
  | i, item :: items => do
      let before ← if i > 0 then sep else .ok []
      let here ← body item
      let after ← yieldItems sep body (i + 1) items
      pure (before ++ here ++ after)

mutual

/-- `PageTemplate::yield_token` with `yield_foreach` and `yield_if`. -/
def yieldToken (arguments : ArgumentList) (arrayItem : Option Item) : Token → Except Thrown Bytes
  | .string data => .ok data
  | .var data => .ok (getVariable arguments arrayItem data)
  | .foreach data body sep =>
      match arguments data with
      | some (.array items) =>
          yieldItems (yieldTokens arguments none sep)
            (fun item => yieldTokens arguments (some item) body) 0 items
      | _ => .ok []
  | .ifElse data ifTrue ifFalse =>
      if getVariable arguments arrayItem data = [] then yieldTokens arguments arrayItem ifFalse
      else yieldTokens arguments arrayItem ifTrue
  | .sepMark => .error (.runtimeError (bytes "invalid template structure"))
  | .endMark => .error (.runtimeError (bytes "invalid template structure"))
  | .elseMark => .error (.runtimeError (bytes "invalid template structure"))

/-- `PageTemplate::yield_tokens`. -/
def yieldTokens (arguments : ArgumentList) (arrayItem : Option Item) :
    TokenList → Except Thrown Bytes
  | [] => .ok []
  | token :: tokens => do
      let here ← yieldToken arguments arrayItem token
      let after ← yieldTokens arguments arrayItem tokens
      pure (here ++ after)

end

/-- `PageTemplate::yield`. -/
def yield (body : TokenList) (arguments : ArgumentList) : Except Thrown Bytes :=
  yieldTokens arguments none body

example : parse (bytes "a<%#if x%>b<%#else%><%y%><%#end%>") =
    .ok [.string (bytes "a"), .ifElse (bytes "x") [.string (bytes "b")] [.var (bytes "y")]] := by
  rfl

end Simurga
