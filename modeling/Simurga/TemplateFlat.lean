import Simurga.TemplateGrammar

/-!
# Templates as flat text

A template cut at its tags, by a lexer that knows nothing of blocks
(`lex`), and the token tree written out in order (`FlattensAll`). The tree
of an accepted template writes out as the template is cut
(`lex_flattens`): the parser drops nothing, repeats nothing and moves
nothing, but for the marker in front of an empty second list, and keeps
the name of an opening tag only.
-/

namespace Simurga

/-! ## The lexer -/

/-- A run of text without a tag in it, or a tag by its trimmed body. -/
inductive Lexeme where
  | text (data : Bytes)
  | tag (body : Bytes)
deriving DecidableEq

/-- The text read so far, if there is any. -/
def textRun (run : Bytes) : List Lexeme := if run = [] then [] else [.text run]

mutual

/-- Left to right, in a run of text; a tag ends it. -/
def lexText (run : Bytes) : Bytes → Option (List Lexeme)
  | [] => some (textRun run)
  | [c] => some (textRun (run ++ [c]))
  | c :: d :: s =>
      if c = '<'.toUInt8 ∧ d = '%'.toUInt8 then (lexTag [] s).map (textRun run ++ ·)
      else lexText (run ++ [c]) (d :: s)

/-- In a tag, up to its closing bracket. -/
def lexTag (inner : Bytes) : Bytes → Option (List Lexeme)
  | [] => none
  | [_] => none
  | c :: d :: s =>
      if c = '%'.toUInt8 ∧ d = '>'.toUInt8 then (lexText [] s).map (.tag (trim inner) :: ·)
      else lexTag (inner ++ [c]) (d :: s)

end

/-- The text runs and the tags of a template in their order; none if a tag
is not closed. -/
def lex (data : Bytes) : Option (List Lexeme) := lexText [] data

example : lex (bytes "a<b<% #if x%>%><%%%>") =
    some [.text (bytes "a<b"), .tag (bytes "#if x"), .text (bytes "%>"), .tag (bytes "%")] := by
  decide

theorem lexText_open (run s : Bytes) :
    lexText run (bytes "<%" ++ s) = (lexTag [] s).map (textRun run ++ ·) := by
  rw [show bytes "<%" ++ s = '<'.toUInt8 :: '%'.toUInt8 :: s from rfl, lexText]
  exact if_pos ⟨rfl, rfl⟩

/-- Text up to a tag or the end is one run. -/
theorem lexText_run {s rest : Bytes} (hfree : ¬ bytes "<%" <:+: s) (hrest : TagAhead rest)
    (run : Bytes) : lexText run (s ++ rest) = lexText (run ++ s) rest := by
  induction s generalizing run with
  | nil => simp
  | cons c s ih =>
      have htail : ¬ bytes "<%" <:+: s := fun h => hfree (h.trans (List.suffix_cons c s).isInfix)
      have hstep : lexText run (c :: (s ++ rest)) = lexText (run ++ [c]) (s ++ rest) := by
        cases hs : s ++ rest with
        | nil => rw [lexText, lexText]
        | cons d s' =>
            rw [lexText]
            refine if_neg ?_
            rintro ⟨rfl, rfl⟩
            cases s with
            | nil =>
                rw [List.nil_append] at hs
                rcases hrest with rfl | ⟨r, rfl⟩
                · cases hs
                · cases hs
            | cons e s =>
                obtain ⟨rfl, -⟩ := List.cons.inj hs
                exact hfree ⟨[], s, rfl⟩
      rw [List.cons_append, hstep, ih htail, List.append_assoc]
      rfl

/-- A tag is read up to its first closing bracket. -/
theorem lexTag_inner {s : Bytes} (hfree : ¬ bytes "%>" <:+: s) (inner rest : Bytes) :
    lexTag inner (s ++ (bytes "%>" ++ rest))
      = (lexText [] rest).map (.tag (trim (inner ++ s)) :: ·) := by
  induction s generalizing inner with
  | nil =>
      rw [List.nil_append, List.append_nil,
        show bytes "%>" ++ rest = '%'.toUInt8 :: '>'.toUInt8 :: rest from rfl, lexTag]
      exact if_pos ⟨rfl, rfl⟩
  | cons c s ih =>
      have htail : ¬ bytes "%>" <:+: s := fun h => hfree (h.trans (List.suffix_cons c s).isInfix)
      have hstep : lexTag inner (c :: (s ++ (bytes "%>" ++ rest)))
          = lexTag (inner ++ [c]) (s ++ (bytes "%>" ++ rest)) := by
        cases s with
        | nil =>
            rw [List.nil_append, show bytes "%>" ++ rest = '%'.toUInt8 :: '>'.toUInt8 :: rest from rfl,
              lexTag]
            exact if_neg fun h => absurd h.2 (by decide)
        | cons d s =>
            rw [List.cons_append, lexTag]
            refine if_neg ?_
            rintro ⟨rfl, rfl⟩
            exact hfree ⟨[], s, rfl⟩
      rw [List.cons_append, hstep, ih htail, List.append_assoc]
      rfl

/-! ## Writing out a tree -/

/-- A tag body that opens a block of this name: the word, one more byte,
and the name when the rest is trimmed. -/
def Opens (word name body : Bytes) : Prop :=
  word <+: body ∧ word.length < body.length ∧ trim (body.drop (word.length + 1)) = name

mutual

/-- `ls` is the token written out in order. -/
def Token.Flattens : Token → List Lexeme → Prop
  | .string data, ls => ls = [.text data]
  | .var data, ls => ls = [.tag data]
  | .ifElse data ifTrue ifFalse, ls =>
      ∃ opener l₁ l₂, Opens (bytes "#if") data opener ∧ FlattensAll ifTrue l₁
        ∧ FlattensSecond (bytes "#else") ifFalse l₂
        ∧ ls = .tag opener :: (l₁ ++ l₂ ++ [.tag (bytes "#end")])
  | .foreach data body sep, ls =>
      ∃ opener l₁ l₂, Opens (bytes "#for") data opener ∧ FlattensAll body l₁
        ∧ FlattensSecond (bytes "#sep") sep l₂
        ∧ ls = .tag opener :: (l₁ ++ l₂ ++ [.tag (bytes "#end")])
  | .sepMark, ls => ls = [.tag (bytes "#sep")]
  | .endMark, ls => ls = [.tag (bytes "#end")]
  | .elseMark, ls => ls = [.tag (bytes "#else")]

/-- The second list of a block behind its marker; an empty one may come
without. -/
def FlattensSecond (marker : Bytes) : TokenList → List Lexeme → Prop
  | [], ls => ls = [] ∨ ls = [.tag marker]
  | t :: ts, ls => ∃ l₁ l₂, t.Flattens l₁ ∧ FlattensAll ts l₂ ∧ ls = .tag marker :: (l₁ ++ l₂)

/-- `ls` is the list written out in order. -/
def FlattensAll : TokenList → List Lexeme → Prop
  | [], ls => ls = []
  | t :: ts, ls => ∃ l₁ l₂, t.Flattens l₁ ∧ FlattensAll ts l₂ ∧ ls = l₁ ++ l₂

end

/-- The tag of a marker. -/
def markerBody : TokenType → Bytes
  | .tokenSeparator => bytes "#sep"
  | .tokenElse => bytes "#else"
  | _ => bytes "#end"

/-- The types that a list stops at, and the one that it never does. -/
def IsStop (type : TokenType) : Prop :=
  type = .tokenEnd ∨ type = .tokenElse ∨ type = .tokenSeparator ∨ type = .tokenNone

theorem flattens_stop {t : Token} {ls : List Lexeme} (ht : IsStop t.type) (h : t.Flattens ls) :
    ls = [.tag (markerBody t.type)] := by
  cases t with
  | sepMark => exact h
  | endMark => exact h
  | elseMark => exact h
  | _ => exact absurd ht (by simp [IsStop, Token.type])

/-! ## The parser and the lexer -/

/-- Between two positions the lexer goes through `ls`. -/
def LexesTo (data : Bytes) (pos pos' : Nat) (ls : List Lexeme) : Prop :=
  ∀ rest, lex (data.drop pos') = some rest → lex (data.drop pos) = some (ls ++ rest)

section Parsed

variable {data : Bytes}

theorem LexesTo.trans {pos pos' pos'' : Nat} {ls ls' : List Lexeme} (h : LexesTo data pos pos' ls)
    (h' : LexesTo data pos' pos'' ls') : LexesTo data pos pos'' (ls ++ ls') := fun rest hrest => by
  rw [List.append_assoc]
  exact h _ (h' rest hrest)

theorem lexesTo_refl (pos : Nat) : LexesTo data pos pos [] := fun _ hrest => hrest

theorem lexesTo_string {pos specPos : Nat} (hopen : (find "<%" data pos).getD data.length = specPos)
    (hne : specPos ≠ pos) (hpos : pos < data.length) :
    LexesTo data pos specPos [.text (substr data pos (specPos - pos))] := by
  intro rest hrest
  have htext : ∀ {s : Bytes}, s ≠ [] → textRun s = [.text s] := fun hs => if_neg hs
  cases hfind : find "<%" data pos with
  | none =>
      rw [hfind, Option.getD_none] at hopen
      subst hopen
      have hfree := Search.not_infix_of_find (by decide) hfind
      have hall : substr data pos (data.length - pos) = data.drop pos := by
        rw [substr, List.take_of_length_le (by rw [List.length_drop])]
      have hrun := lexText_run hfree (Or.inl rfl) []
      rw [List.append_nil, List.nil_append] at hrun
      rw [List.drop_length] at hrest
      cases hrest
      rw [lex, hrun, lexText, hall, htext (by simpa using hpos)]
      rfl
  | some i =>
      have hi := find_bounds (by decide) hfind
      rw [hfind, Option.getD_some] at hopen
      subst hopen
      obtain ⟨hsplit, hfree⟩ := Search.find_split (by decide) hfind
      have hlen : (bytes "<%").length = 2 := rfl
      have hne' : substr data pos (i - pos) ≠ [] := by
        rw [← List.length_pos_iff, substr, List.length_take, List.length_drop]
        omega
      have hrest' : data.drop i = bytes "<%" ++ data.drop (i + 2) := by
        have hdrop := congrArg (List.drop (i - pos)) hsplit
        rw [List.drop_drop, Nat.add_sub_cancel' hi.1, List.drop_left' (by
          rw [List.length_take, List.length_drop]; omega)] at hdrop
        exact hdrop
      rw [hrest', lex, lexText_open] at hrest
      obtain ⟨ls, hls, rfl⟩ := Option.map_eq_some_iff.mp hrest
      rw [lex, hsplit, lexText_run hfree (Or.inr ⟨_, rfl⟩), lexText_open, List.nil_append]
      change (lexTag [] (data.drop (i + 2))).map _ = _
      rw [hls, Option.map_some, ← substr, htext hne']
      rfl

theorem lexesTo_tag {pos specEnd : Nat} (hopen : (find "<%" data pos).getD data.length = pos)
    (hpos : pos < data.length) (hclose : find "%>" data (pos + 2) = some specEnd) :
    LexesTo data pos (specEnd + 2) [.tag (trim (substr data (pos + 2) (specEnd - (pos + 2))))] := by
  intro rest hrest
  obtain ⟨hsplit, -⟩ := Search.find_split (by decide) (find_of_getD hopen hpos)
  obtain ⟨hinner, hfree⟩ := Search.find_split (by decide) hclose
  rw [Nat.sub_self, List.take_zero, List.nil_append] at hsplit
  change data.drop pos = bytes "<%" ++ data.drop (pos + 2) at hsplit
  rw [lex, hsplit, lexText_open, hinner, lexTag_inner hfree]
  change Option.map _ (Option.map _ (lex (data.drop (specEnd + 2)))) = _
  rw [hrest]
  rfl

theorem isStop_of {end1 end2 stop : TokenType} (h : stop = end1 ∨ stop = end2)
    (hend1 : IsStop end1) (hend2 : IsStop end2) : IsStop stop := by
  rcases h with rfl | rfl
  · exact hend1
  · exact hend2

theorem ListAt.stop_eq {end1 end2 stop : TokenType} {pos pos' : Nat} {tokens : TokenList} :
    ListAt data end1 end2 pos tokens stop pos' → stop = end1 ∨ stop = end2
  | .stop _ _ hstop => hstop
  | .cons _ _ _ hrest => hrest.stop_eq

theorem flattensSecond_mark (marker : Bytes) : ∀ {ts : TokenList} {ls : List Lexeme},
    FlattensAll ts ls → FlattensSecond marker ts (.tag marker :: ls)
  | [], _, h => Or.inr (by rw [show _ = [] from h])
  | _ :: _, _, ⟨l₁, l₂, h₁, h₂, h⟩ => ⟨l₁, l₂, h₁, h₂, by rw [h]⟩

mutual

/-- The lexer goes from a position of the parser to the next one through the
token that the parser makes. -/
theorem TokenAt.flattens : ∀ {pos pos' : Nat} {t : Token}, TokenAt data pos t pos' →
    pos < data.length → ∃ ls, t.Flattens ls ∧ LexesTo data pos pos' ls
  | _, _, _, .string hopen hne, hpos => ⟨_, rfl, lexesTo_string hopen hne hpos⟩
  | _, _, _, .tag hopen hclose h, hpos => by
      obtain ⟨ls, hflat, hlex⟩ := h.flattens
      exact ⟨_, hflat, (lexesTo_tag hopen hpos hclose).trans hlex⟩

theorem TagAt.flattens : ∀ {body : Bytes} {pos pos' : Nat} {t : Token},
    TagAt data body pos t pos' → ∃ ls, t.Flattens (.tag body :: ls) ∧ LexesTo data pos pos' ls
  | _, pos, _, _, .var _ _ => ⟨[], rfl, lexesTo_refl pos⟩
  | _, pos, _, _, .marker hm => ⟨[], by cases hm <;> rfl, lexesTo_refl pos⟩
  | body, _, _, _, .ifElse hword hlen h => by
      obtain ⟨l₁, l₂, h₁, h₂, hlex⟩ := h.flattens (Or.inr (Or.inl rfl))
      refine ⟨_, ⟨body, l₁, l₂, ⟨?_, hlen, rfl⟩, h₁, h₂, rfl⟩, hlex⟩
      rw [← hword]
      exact List.take_prefix 3 body
  | body, _, _, _, .foreach hword hlen h => by
      obtain ⟨l₁, l₂, h₁, h₂, hlex⟩ := h.flattens (Or.inr (Or.inr (Or.inl rfl)))
      refine ⟨_, ⟨body, l₁, l₂, ⟨?_, hlen, rfl⟩, h₁, h₂, rfl⟩, hlex⟩
      rw [← hword]
      exact List.take_prefix 4 body

theorem BlockAt.flattens : ∀ {mid : TokenType} {pos pos' : Nat} {first second : TokenList},
    BlockAt data mid pos first second pos' → IsStop mid →
      ∃ l₁ l₂, FlattensAll first l₁ ∧ FlattensSecond (markerBody mid) second l₂
        ∧ LexesTo data pos pos' (l₁ ++ l₂ ++ [.tag (bytes "#end")])
  | mid, _, _, _, _, .one h hstop, hmid => by
      obtain ⟨l₁, h₁, hlex⟩ := h.flattens (Or.inl rfl) hmid
      rw [h.stop_eq.resolve_right hstop] at hlex
      refine ⟨l₁, [], h₁, Or.inl rfl, ?_⟩
      rw [List.append_nil]
      exact hlex
  | mid, _, _, _, _, .two h h', hmid => by
      obtain ⟨l₁, h₁, hlex⟩ := h.flattens (Or.inl rfl) hmid
      obtain ⟨l₂, h₂, hlex'⟩ := h'.flattens (Or.inl rfl) (Or.inr (Or.inr (Or.inr rfl)))
      have hend : ∀ {stop : TokenType}, stop = .tokenEnd ∨ stop = .tokenNone →
          markerBody stop = bytes "#end" := by
        rintro _ (rfl | rfl) <;> rfl
      rw [hend h'.stop_eq] at hlex'
      refine ⟨l₁, .tag (markerBody mid) :: l₂, h₁, flattensSecond_mark _ h₂, ?_⟩
      have hall := hlex.trans hlex'
      simpa using hall

/-- A list is gone through up to its stop, which is a marker. -/
theorem ListAt.flattens : ∀ {end1 end2 stop : TokenType} {pos pos' : Nat} {tokens : TokenList},
    ListAt data end1 end2 pos tokens stop pos' → IsStop end1 → IsStop end2 →
      ∃ ls, FlattensAll tokens ls ∧ LexesTo data pos pos' (ls ++ [.tag (markerBody stop)])
  | _, _, _, _, _, _, .stop hpos h hstop, hend1, hend2 => by
      obtain ⟨ls, hflat, hlex⟩ := h.flattens hpos
      rw [flattens_stop (isStop_of hstop hend1 hend2) hflat] at hlex
      exact ⟨[], rfl, hlex⟩
  | _, _, _, _, _, _, .cons hpos h _ hrest, hend1, hend2 => by
      obtain ⟨l₁, h₁, hlex₁⟩ := h.flattens hpos
      obtain ⟨l₂, h₂, hlex₂⟩ := hrest.flattens hend1 hend2
      refine ⟨l₁ ++ l₂, ⟨l₁, l₂, h₁, h₂, rfl⟩, ?_⟩
      rw [List.append_assoc]
      exact hlex₁.trans hlex₂

end

theorem ParseAt.flattens : ∀ {pos : Nat} {tokens : TokenList}, ParseAt data pos tokens →
    ∃ ls, FlattensAll tokens ls ∧ lex (data.drop pos) = some ls
  | pos, _, .eof hpos => ⟨[], rfl, by rw [List.drop_eq_nil_of_le (by omega)]; rfl⟩
  | _, _, .cons hpos h hrest => by
      obtain ⟨l₁, h₁, hlex₁⟩ := h.flattens hpos
      obtain ⟨l₂, h₂, hlex₂⟩ := hrest.flattens
      exact ⟨l₁ ++ l₂, ⟨l₁, l₂, h₁, h₂, rfl⟩, hlex₁ l₂ hlex₂⟩

end Parsed

/-- The tree of a template that loads, written out in order, is the template
cut at its tags. -/
theorem lex_flattens {data : Bytes} {tokens : TokenList} (h : parse data = .ok tokens) :
    ∃ ls, lex data = some ls ∧ FlattensAll tokens ls := by
  obtain ⟨ls, hflat, hlex⟩ := (parse_sound h).flattens
  exact ⟨ls, hlex, hflat⟩

/-- A stray marker, a name with a bracket in it, an empty second list. -/
theorem lex_flattens_sample :
    ∃ ls, lex (bytes "<%#if a<%b%>c<%#sep%><%#else%><%#end%>d") = some ls
      ∧ FlattensAll [.ifElse (bytes "a<%b") [.string (bytes "c"), .sepMark] [], .string (bytes "d")] ls :=
  lex_flattens rfl

end Simurga
