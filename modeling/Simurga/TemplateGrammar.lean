import Simurga.TemplatePrint

/-!
# What the parser can return

The parser of `PageTemplate` as a relation without fuel: `TokenAt`,
`TagAt`, `BlockAt` and `ListAt` are derived exactly as `get_next_token`
and `parse_subtokens` run, one constructor for each way they return.
`parse_sound` turns a successful parse into a derivation, and every fact
about all parsed templates is an induction over derivations.
-/

namespace Simurga

/-! ## The relation -/

mutual

/-- `get_next_token` at `pos` returns the token and moves to the second position. -/
inductive TokenAt (data : Bytes) : Nat → Token → Nat → Prop where
  | string {pos specPos : Nat} (hopen : (find "<%" data pos).getD data.length = specPos)
      (hne : specPos ≠ pos) :
      TokenAt data pos (.string (substr data pos (specPos - pos))) specPos
  | tag {pos specEnd pos' : Nat} {t : Token}
      (hopen : (find "<%" data pos).getD data.length = pos)
      (hclose : find "%>" data (pos + 2) = some specEnd)
      (h : TagAt data (trim (substr data (pos + 2) (specEnd - (pos + 2)))) (specEnd + 2) t pos') :
      TokenAt data pos t pos'

/-- The same from the trimmed tag body on. -/
inductive TagAt (data : Bytes) : Bytes → Nat → Token → Nat → Prop where
  | var {body : Bytes} {pos : Nat} (hne : body ≠ []) (hhead : body.head? ≠ some '#'.toUInt8) :
      TagAt data body pos (.var body) pos
  | marker {body : Bytes} {pos : Nat} {m : Token} (hm : IsMarker m body) : TagAt data body pos m pos
  | ifElse {body : Bytes} {pos pos' : Nat} {ifTrue ifFalse : TokenList}
      (hword : substr body 0 3 = bytes "#if") (hlen : 4 ≤ body.length)
      (h : BlockAt data .tokenElse pos ifTrue ifFalse pos') :
      TagAt data body pos (.ifElse (trim (body.drop 4)) ifTrue ifFalse) pos'
  | foreach {body : Bytes} {pos pos' : Nat} {items sep : TokenList}
      (hword : substr body 0 4 = bytes "#for") (hlen : 5 ≤ body.length)
      (h : BlockAt data .tokenSeparator pos items sep pos') :
      TagAt data body pos (.foreach (trim (body.drop 5)) items sep) pos'

/-- The two lists of a block. -/
inductive BlockAt (data : Bytes) : TokenType → Nat → TokenList → TokenList → Nat → Prop where
  | one {mid stop : TokenType} {pos pos' : Nat} {first : TokenList}
      (h : ListAt data .tokenEnd mid pos first stop pos') (hstop : stop ≠ mid) :
      BlockAt data mid pos first [] pos'
  | two {mid stop : TokenType} {pos pos' pos'' : Nat} {first second : TokenList}
      (h : ListAt data .tokenEnd mid pos first mid pos')
      (h' : ListAt data .tokenEnd .tokenNone pos' second stop pos'') :
      BlockAt data mid pos first second pos''

/-- `parse_subtokens` with its two stop types: the tokens, the type it stopped at. -/
inductive ListAt (data : Bytes) : TokenType → TokenType → Nat → TokenList → TokenType → Nat → Prop where
  | stop {end1 end2 : TokenType} {pos pos' : Nat} {t : Token} (hpos : pos < data.length)
      (h : TokenAt data pos t pos') (hstop : t.type = end1 ∨ t.type = end2) :
      ListAt data end1 end2 pos [] t.type pos'
  | cons {end1 end2 stop : TokenType} {pos pos' pos'' : Nat} {t : Token} {ts : TokenList}
      (hpos : pos < data.length) (h : TokenAt data pos t pos')
      (hkeep : ¬ (t.type = end1 ∨ t.type = end2)) (hrest : ListAt data end1 end2 pos' ts stop pos'') :
      ListAt data end1 end2 pos (t :: ts) stop pos''

end

/-- The loop of `parse`: it runs to the end of the text. -/
inductive ParseAt (data : Bytes) : Nat → TokenList → Prop where
  | eof {pos : Nat} (hpos : ¬ pos < data.length) : ParseAt data pos []
  | cons {pos pos' : Nat} {t : Token} {ts : TokenList} (hpos : pos < data.length)
      (h : TokenAt data pos t pos') (hrest : ParseAt data pos' ts) : ParseAt data pos (t :: ts)

/-! ## Soundness -/

/-- The parameters of `tagToken` stand for one level of `parse_subtokens`. -/
def ListSound (data : Bytes) (sub : Subtokens) : Prop :=
  ∀ {pos end1 end2 tokens stop pos'}, sub pos end1 end2 = .ok (tokens, stop, pos') →
    ListAt data end1 end2 pos tokens stop pos'

theorem parseBlock_sound {data : Bytes} {sub : Subtokens} (hsub : ListSound data sub)
    {mid : TokenType} {pos pos' : Nat} {first second : TokenList}
    (h : parseBlock sub mid pos = .ok (first, second, pos')) :
    BlockAt data mid pos first second pos' := by
  unfold parseBlock at h
  obtain ⟨⟨toks, stop, mark⟩, hfirst, h⟩ := bind_eq_ok h
  have hlist := hsub hfirst
  dsimp only at h
  by_cases hstop : stop = mid
  · subst hstop
    rw [if_pos rfl] at h
    obtain ⟨⟨toks', stop', mark'⟩, hsecond, h⟩ := bind_eq_ok h
    cases h
    exact .two hlist (hsub hsecond)
  · rw [if_neg hstop] at h
    cases h
    exact .one hlist hstop

theorem substrFrom_ok {s r : Bytes} {pos : Nat} (h : substrFrom s pos = .ok r) :
    pos ≤ s.length ∧ r = s.drop pos := by
  unfold substrFrom at h
  split at h
  · rename_i hpos
    cases h
    exact ⟨hpos, rfl⟩
  · cases h

theorem tagToken_sound {data : Bytes} {sub : Subtokens} (hsub : ListSound data sub) {body : Bytes}
    {pos pos' : Nat} {t : Token} (h : tagToken sub body pos = .ok (t, pos')) :
    TagAt data body pos t pos' := by
  unfold tagToken at h
  by_cases hne : body = []
  · rw [if_pos hne] at h; cases h
  rw [if_neg hne] at h
  by_cases hhead : body.head? ≠ some '#'.toUInt8
  · rw [if_pos hhead] at h
    cases h
    exact .var hne hhead
  rw [if_neg hhead] at h
  by_cases hend : body = bytes "#end"
  · rw [if_pos hend] at h
    cases h
    exact .marker (hend ▸ .endMark)
  rw [if_neg hend] at h
  by_cases hsep : body = bytes "#sep"
  · rw [if_pos hsep] at h
    cases h
    exact .marker (hsep ▸ .sepMark)
  rw [if_neg hsep] at h
  by_cases helse : body = bytes "#else"
  · rw [if_pos helse] at h
    cases h
    exact .marker (helse ▸ .elseMark)
  rw [if_neg helse] at h
  by_cases hif : substr body 0 3 = bytes "#if"
  · rw [if_pos hif] at h
    obtain ⟨name, hname, h⟩ := bind_eq_ok h
    obtain ⟨hlen, rfl⟩ := substrFrom_ok hname
    obtain ⟨⟨a, b, mark⟩, hblock, h⟩ := bind_eq_ok h
    cases h
    exact .ifElse hif hlen (parseBlock_sound hsub hblock)
  rw [if_neg hif] at h
  by_cases hfor : substr body 0 4 = bytes "#for"
  · rw [if_pos hfor] at h
    obtain ⟨name, hname, h⟩ := bind_eq_ok h
    obtain ⟨hlen, rfl⟩ := substrFrom_ok hname
    obtain ⟨⟨a, b, mark⟩, hblock, h⟩ := bind_eq_ok h
    cases h
    exact .foreach hfor hlen (parseBlock_sound hsub hblock)
  · rw [if_neg hfor] at h; cases h

mutual

theorem getNextToken_sound {data : Bytes} : ∀ (fuel : Nat) {pos pos' : Nat} {t : Token},
    getNextToken fuel data pos = .ok (t, pos') → TokenAt data pos t pos'
  | 0, _, _, _, h => by rw [getNextToken] at h; cases h
  | fuel + 1, pos, pos', t, h => by
      rw [getNextToken] at h
      by_cases hopen : (find "<%" data pos).getD data.length = pos
      · simp only [hopen, ne_eq, not_true_eq_false, if_false] at h
        split at h
        · cases h
        · rename_i specEnd hclose
          exact .tag hopen hclose (tagToken_sound (parseSubtokens_sound fuel) h)
      · rw [if_pos hopen] at h
        cases h
        exact .string rfl hopen

theorem parseSubtokens_sound {data : Bytes} : ∀ (fuel : Nat), ListSound data (parseSubtokens fuel data)
  | 0, _, _, _, _, _, _, h => by rw [parseSubtokens] at h; cases h
  | fuel + 1, pos, end1, end2, tokens, stop, pos', h => by
      rw [parseSubtokens] at h
      split at h
      · rename_i hpos
        obtain ⟨⟨t, mark⟩, hget, h⟩ := bind_eq_ok h
        have htoken := getNextToken_sound fuel hget
        dsimp only at h
        by_cases hstop : t.type = end1 ∨ t.type = end2
        · rw [if_pos hstop] at h
          cases h
          exact .stop hpos htoken hstop
        · rw [if_neg hstop] at h
          obtain ⟨⟨ts, stop', mark'⟩, hrest, h⟩ := bind_eq_ok h
          cases h
          exact .cons hpos htoken hstop (parseSubtokens_sound fuel hrest)
      · cases h

end

theorem parseLoop_sound {data : Bytes} : ∀ (fuel : Nat) {pos : Nat} {tokens : TokenList},
    parseLoop fuel data pos = .ok tokens → ParseAt data pos tokens
  | 0, _, _, h => by rw [parseLoop] at h; cases h
  | fuel + 1, pos, tokens, h => by
      rw [parseLoop] at h
      split at h
      · rename_i hpos
        obtain ⟨⟨t, mark⟩, hget, h⟩ := bind_eq_ok h
        obtain ⟨ts, hrest, h⟩ := bind_eq_ok h
        cases h
        exact .cons hpos (getNextToken_sound fuel hget) (parseLoop_sound fuel hrest)
      · rename_i hpos
        cases h
        exact .eof hpos

/-- A template that loads has a derivation over its whole text. -/
theorem parse_sound {data : Bytes} {tokens : TokenList} (h : parse data = .ok tokens) :
    ParseAt data 0 tokens :=
  parseLoop_sound _ h

/-! ## Completeness

The parser finds each derivation when it has fuel for the rest of the
text: every token moves the position on. -/

theorem find_bounds {pat : String} {data : Bytes} {pos i : Nat} (hpat : bytes pat ≠ [])
    (h : find pat data pos = some i) : pos ≤ i ∧ i + (bytes pat).length ≤ data.length := by
  obtain ⟨j, hj, rfl⟩ := Option.map_eq_some_iff.mp h
  obtain ⟨pre, post, hsplit, rfl⟩ := Search.indexOf?_split hj
  have hlen := congrArg List.length hsplit
  have hpos := List.length_pos_of_ne_nil hpat
  simp only [List.length_drop, List.length_append] at hlen
  omega

/-- The search for the next tag, when it succeeds. -/
theorem find_of_getD {data : Bytes} {pos specPos : Nat}
    (hopen : (find "<%" data pos).getD data.length = specPos) (h : specPos < data.length) : find "<%" data pos = some specPos := by
  cases hfind : find "<%" data pos with
  | none =>
      rw [hfind, Option.getD_none] at hopen
      omega
  | some i =>
      rw [hfind, Option.getD_some] at hopen
      rw [hopen]

mutual

theorem TokenAt.bounds {data : Bytes} : ∀ {pos pos' : Nat} {t : Token},
    TokenAt data pos t pos' → pos < data.length → pos < pos' ∧ pos' ≤ data.length
  | pos, pos', _, .string hopen hne, hpos => by
      cases hfind : find "<%" data pos with
      | none =>
          rw [hfind, Option.getD_none] at hopen
          omega
      | some i =>
          have hi := find_bounds (by decide) hfind
          rw [hfind, Option.getD_some] at hopen
          omega
  | _, _, _, .tag _ hclose h, _ => by
      have hend := find_bounds (by decide) hclose
      have hlen : (bytes "%>").length = 2 := rfl
      have hafter := h.bounds (by omega)
      omega

theorem TagAt.bounds {data : Bytes} : ∀ {body : Bytes} {pos pos' : Nat} {t : Token},
    TagAt data body pos t pos' → pos ≤ data.length → pos ≤ pos' ∧ pos' ≤ data.length
  | _, _, _, _, .var _ _, hpos => ⟨Nat.le_refl _, hpos⟩
  | _, _, _, _, .marker _, hpos => ⟨Nat.le_refl _, hpos⟩
  | _, _, _, _, .ifElse _ _ h, _ => h.bounds
  | _, _, _, _, .foreach _ _ h, _ => h.bounds

theorem BlockAt.bounds {data : Bytes} : ∀ {mid : TokenType} {pos pos' : Nat}
    {first second : TokenList}, BlockAt data mid pos first second pos' →
      pos ≤ pos' ∧ pos' ≤ data.length
  | _, _, _, _, _, .one h _ => ⟨h.bounds.1.le, h.bounds.2⟩
  | _, _, _, _, _, .two h h' => ⟨h.bounds.1.le.trans h'.bounds.1.le, h'.bounds.2⟩

theorem ListAt.bounds {data : Bytes} : ∀ {end1 end2 stop : TokenType} {pos pos' : Nat}
    {tokens : TokenList}, ListAt data end1 end2 pos tokens stop pos' →
      pos < pos' ∧ pos' ≤ data.length
  | _, _, _, _, _, _, .stop hpos h _ => h.bounds hpos
  | _, _, _, _, _, _, .cons hpos h _ hrest => ⟨(h.bounds hpos).1.trans hrest.bounds.1, hrest.bounds.2⟩

end

/-- The parameters of `tagToken` find the lists of one level from a position on. -/
def ListComplete (data : Bytes) (pos : Nat) (sub : Subtokens) : Prop :=
  ∀ {pos' end1 end2 tokens stop pos''}, pos ≤ pos' →
    ListAt data end1 end2 pos' tokens stop pos'' → sub pos' end1 end2 = .ok (tokens, stop, pos'')

theorem parseBlock_complete {data : Bytes} {sub : Subtokens} {mid : TokenType} {pos pos' : Nat}
    {first second : TokenList} (hsub : ListComplete data pos sub)
    (h : BlockAt data mid pos first second pos') :
    parseBlock sub mid pos = .ok (first, second, pos') := by
  unfold parseBlock
  cases h with
  | one h hstop =>
      rw [hsub (Nat.le_refl pos) h]
      simp only [bind, Except.bind, if_neg hstop]
      rfl
  | two h h' =>
      rw [hsub (Nat.le_refl pos) h]
      simp only [bind, Except.bind, if_true]
      rw [hsub h.bounds.1.le h']
      rfl

theorem tagToken_complete {data : Bytes} {sub : Subtokens} {body : Bytes} {pos pos' : Nat}
    {t : Token} (hsub : ListComplete data pos sub) (h : TagAt data body pos t pos') :
    tagToken sub body pos = .ok (t, pos') := by
  cases h with
  | var hne hhead => exact tagToken_variable hne hhead sub pos
  | marker hm => exact hm.tagToken sub pos
  | ifElse hword hlen h =>
      obtain ⟨c, name, rfl⟩ := exists_append_of_substr (show substr _ 0 (bytes "#if").length = bytes "#if" from hword) hlen
      rw [tagToken_if, parseBlock_complete hsub h]
      rfl
  | foreach hword hlen h =>
      obtain ⟨c, name, rfl⟩ := exists_append_of_substr (show substr _ 0 (bytes "#for").length = bytes "#for" from hword) hlen
      rw [tagToken_for, parseBlock_complete hsub h]
      rfl

mutual

theorem getNextToken_complete {data : Bytes} : ∀ (fuel : Nat) {pos pos' : Nat} {t : Token},
    pos < data.length → 2 * (data.length - pos) + 1 ≤ fuel → TokenAt data pos t pos' →
      getNextToken fuel data pos = .ok (t, pos')
  | 0, _, _, _, _, hfuel, _ => by omega
  | fuel + 1, pos, pos', t, hpos, hfuel, h => by
      rw [getNextToken]
      cases h with
      | string hopen hne =>
          subst hopen
          rw [if_pos hne]
      | @tag _ specEnd _ _ hopen hclose h =>
          have hend := find_bounds (by decide) hclose
          simp only [hopen, ne_eq, not_true_eq_false, if_false, hclose]
          refine tagToken_complete (fun hle hlist => ?_) h
          have hlt := hlist.bounds
          exact parseSubtokens_complete fuel (by omega) hlist

theorem parseSubtokens_complete {data : Bytes} : ∀ (fuel : Nat) {pos pos' : Nat}
    {end1 end2 stop : TokenType} {tokens : TokenList}, 2 * (data.length - pos) + 2 ≤ fuel →
      ListAt data end1 end2 pos tokens stop pos' →
      parseSubtokens fuel data pos end1 end2 = .ok (tokens, stop, pos')
  | 0, _, _, _, _, _, _, hfuel, _ => by omega
  | fuel + 1, pos, pos', end1, end2, stop, tokens, hfuel, h => by
      rw [parseSubtokens]
      cases h with
      | stop hpos h hstop =>
          rw [if_pos hpos, getNextToken_complete fuel hpos (by omega) h]
          simp only [bind, Except.bind, if_pos hstop]
          rfl
      | cons hpos h hkeep hrest =>
          have hlt := h.bounds hpos
          rw [if_pos hpos, getNextToken_complete fuel hpos (by omega) h]
          simp only [bind, Except.bind, if_neg hkeep]
          rw [parseSubtokens_complete fuel (by omega) hrest]
          rfl

end

theorem parseLoop_complete {data : Bytes} : ∀ (fuel : Nat) {pos : Nat} {tokens : TokenList},
    2 * (data.length - pos) + 2 ≤ fuel → ParseAt data pos tokens →
      parseLoop fuel data pos = .ok tokens
  | 0, _, _, hfuel, _ => by omega
  | fuel + 1, pos, tokens, hfuel, h => by
      rw [parseLoop]
      cases h with
      | eof hpos => exact if_neg hpos
      | cons hpos h hrest =>
          have hlt := h.bounds hpos
          rw [if_pos hpos, getNextToken_complete fuel hpos (by omega) h]
          simp only [bind, Except.bind]
          rw [parseLoop_complete fuel (by omega) hrest]
          rfl

/-- A template loads if and only if it has a derivation. -/
theorem parse_iff {data : Bytes} {tokens : TokenList} :
    parse data = .ok tokens ↔ ParseAt data 0 tokens :=
  ⟨parse_sound, parseLoop_complete _ (by simp [parseFuel])⟩

/-- At one position there is one token. -/
theorem TokenAt.unique {data : Bytes} {pos p p' : Nat} {t t' : Token} (hpos : pos < data.length)
    (h : TokenAt data pos t p) (h' : TokenAt data pos t' p') : t = t' ∧ p = p' := by
  have htoken := getNextToken_complete _ hpos (Nat.le_refl _) h
  rw [getNextToken_complete _ hpos (Nat.le_refl _) h'] at htoken
  cases htoken
  exact ⟨rfl, rfl⟩

end Simurga
