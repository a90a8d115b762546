import Simurga.TemplateGrammar

/-!
# Concatenated templates

A template behind another one. What the parser read of the first text
stays as it is (`TokenAt.append`), because no search runs past the end of
an accepted text but the one for the next tag; what it reads of the second
does not depend on where that starts (`getNextToken_shift`). Only a text at
the seam is longer than before: `Joined` is what becomes of the two lists,
and it renders as one list behind the other (`yieldTokens_joined`).
-/

namespace Simurga

/-- The seam of two texts makes a tag. -/
def Seam (a b : Bytes) : Prop := ['<'.toUInt8] <:+ a ∧ ['%'.toUInt8] <+: b

instance (a b : Bytes) : Decidable (Seam a b) := inferInstanceAs (Decidable (_ ∧ _))

/-- The tokens of a concatenation: a text that ends the first list and one
that starts the second are one text. -/
def joinTokens : TokenList → TokenList → TokenList
  | [], ts' => ts'
  | [.string s], .string s' :: ts' => .string (s ++ s') :: ts'
  | t :: ts, ts' => t :: joinTokens ts ts'

theorem joinTokens_cons {t : Token} {ts : TokenList} (h : t.type = .tokenString → ts ≠ [])
    (ts' : TokenList) : joinTokens (t :: ts) ts' = t :: joinTokens ts ts' := by
  cases ts with
  | cons u us => rw [joinTokens]; simp
  | nil =>
      cases t with
      | string s => exact absurd rfl (h rfl)
      | _ => simp [joinTokens]

/-! ## The first text -/

theorem substr_append_left {a : Bytes} {pos n : Nat} (h : pos + n ≤ a.length) (b : Bytes) :
    substr (a ++ b) pos n = substr a pos n := by
  rw [substr, substr, List.drop_append_of_le_length (by omega),
    List.take_append_of_le_length (by rw [List.length_drop]; omega)]

section First

variable {a : Bytes}

mutual

/-- A token is the same with more behind the text, but for a text that ends it. -/
theorem TokenAt.append (b : Bytes) : ∀ {pos pos' : Nat} {t : Token}, TokenAt a pos t pos' →
    pos < a.length → (t.type = .tokenString → pos' < a.length) → TokenAt (a ++ b) pos t pos'
  | pos, pos', _, .string hopen hne, hpos, hend => by
      have hlt := hend rfl
      have hfind := find_of_getD hopen hlt
      have hle := (find_bounds (by decide) hfind).1
      have hopen' : (find "<%" (a ++ b) pos).getD (a ++ b).length = pos' := by
        rw [find, Search.find_append_left hfind hpos.le b, Option.getD_some]
      rw [← substr_append_left (a := a) (by omega) b]
      exact .string hopen' hne
  | pos, pos', _, .tag hopen hclose h, hpos, _ => by
      have hfind := find_of_getD hopen hpos
      have hbounds := find_bounds (by decide) hclose
      have hlen : (bytes "%>").length = 2 := rfl
      refine .tag ?_ (Search.find_append_left hclose (by omega) b) ?_
      · rw [find, Search.find_append_left hfind hpos.le b, Option.getD_some]
      · rw [substr_append_left (by omega) b]
        exact h.append b

theorem TagAt.append (b : Bytes) : ∀ {body : Bytes} {pos pos' : Nat} {t : Token},
    TagAt a body pos t pos' → TagAt (a ++ b) body pos t pos'
  | _, _, _, _, .var hne hhead => .var hne hhead
  | _, _, _, _, .marker hm => .marker hm
  | _, _, _, _, .ifElse hword hlen h => .ifElse hword hlen (h.append b (by decide))
  | _, _, _, _, .foreach hword hlen h => .foreach hword hlen (h.append b (by decide))

theorem BlockAt.append (b : Bytes) : ∀ {mid : TokenType} {pos pos' : Nat}
    {first second : TokenList}, BlockAt a mid pos first second pos' → mid ≠ .tokenString →
      BlockAt (a ++ b) mid pos first second pos'
  | _, _, _, _, _, .one h hstop, hmid => .one (h.append b (by decide) hmid) hstop
  | _, _, _, _, _, .two h h', hmid =>
      .two (h.append b (by decide) hmid) (h'.append b (by decide) (by decide))

/-- A list ends at a marker, so no text of it ends the whole text. -/
theorem ListAt.append (b : Bytes) : ∀ {end1 end2 stop : TokenType} {pos pos' : Nat}
    {tokens : TokenList}, ListAt a end1 end2 pos tokens stop pos' → end1 ≠ .tokenString →
      end2 ≠ .tokenString → ListAt (a ++ b) end1 end2 pos tokens stop pos'
  | _, _, _, _, _, _, .stop hpos h hstop, hend1, hend2 => by
      refine .stop (by rw [List.length_append]; omega) (h.append b hpos fun hstring => ?_) hstop
      rw [hstring] at hstop
      exact absurd hstop (by simp [hend1.symm, hend2.symm])
  | _, _, _, _, _, _, .cons hpos h hkeep hrest, hend1, hend2 => by
      refine .cons (by rw [List.length_append]; omega) (h.append b hpos fun _ => ?_) hkeep
        (hrest.append b hend1 hend2)
      cases hrest with
      | stop hpos' => exact hpos'
      | cons hpos' => exact hpos'

end

end First

/-! ## The second text -/

section Second

variable (a : Bytes) {b : Bytes}

/-- `parse_subtokens` on the second text alone and behind the first one. -/
def SubtokensShift (sub sub' : Subtokens) : Prop :=
  ∀ pos end1 end2, sub' (a.length + pos) end1 end2
    = (sub pos end1 end2).map fun (tokens, stop, pos) => (tokens, stop, a.length + pos)

variable {a} {sub sub' : Subtokens}

theorem parseBlock_shift (hsub : SubtokensShift a sub sub') (mid : TokenType) (pos : Nat) :
    parseBlock sub' mid (a.length + pos)
      = (parseBlock sub mid pos).map fun (first, second, pos) => (first, second, a.length + pos) := by
  unfold parseBlock
  rw [hsub]
  cases sub pos .tokenEnd mid with
  | error e => rfl
  | ok r =>
      obtain ⟨first, stop, pos'⟩ := r
      simp only [Except.map, bind, Except.bind]
      by_cases hstop : stop = mid
      · rw [if_pos hstop, if_pos hstop, hsub]
        cases sub pos' .tokenEnd .tokenNone <;> rfl
      · rw [if_neg hstop, if_neg hstop]
        rfl

theorem tagToken_shift (hsub : SubtokensShift a sub sub') (body : Bytes) (pos : Nat) :
    tagToken sub' body (a.length + pos)
      = (tagToken sub body pos).map fun (t, pos) => (t, a.length + pos) := by
  unfold tagToken
  rw [parseBlock_shift hsub, parseBlock_shift hsub]
  split_ifs
  · rfl
  · rfl
  · rfl
  · rfl
  · rfl
  · cases substrFrom body 4 with
    | error e => rfl
    | ok name => cases parseBlock sub .tokenElse pos <;> rfl
  · cases substrFrom body 5 with
    | error e => rfl
    | ok name => cases parseBlock sub .tokenSeparator pos <;> rfl
  · rfl

theorem substr_append_right (a b : Bytes) (pos n : Nat) :
    substr (a ++ b) (a.length + pos) n = substr b pos n := by
  rw [substr, substr, List.drop_append, List.drop_eq_nil_of_le (by omega), List.nil_append,
    Nat.add_sub_cancel_left]

theorem find_append_right (pat : String) (a b : Bytes) (pos : Nat) :
    find pat (a ++ b) (a.length + pos) = (find pat b pos).map (a.length + ·) :=
  Search.find_append_right ..

mutual

theorem getNextToken_shift (a b : Bytes) : ∀ (fuel pos : Nat),
    getNextToken fuel (a ++ b) (a.length + pos)
      = (getNextToken fuel b pos).map fun (t, pos) => (t, a.length + pos)
  | 0, _ => by
      rw [getNextToken, getNextToken]
      rfl
  | fuel + 1, pos => by
      have hopen : (find "<%" (a ++ b) (a.length + pos)).getD (a ++ b).length
          = a.length + (find "<%" b pos).getD b.length := by
        rw [find_append_right, List.length_append]
        cases find "<%" b pos <;> rfl
      rw [getNextToken, getNextToken]
      simp only [hopen]
      generalize (find "<%" b pos).getD b.length = specPos
      by_cases hne : specPos ≠ pos
      · rw [if_pos hne, if_pos (by omega), Nat.add_sub_add_left, substr_append_right]
        rfl
      · rw [if_neg hne, if_neg (by omega), Nat.add_assoc, find_append_right]
        cases find "%>" b (specPos + 2) with
        | none => rfl
        | some specEnd =>
            simp only [Option.map_some]
            rw [Nat.add_sub_add_left, substr_append_right, Nat.add_assoc,
              tagToken_shift (parseSubtokens_shift a b fuel)]

theorem parseSubtokens_shift (a b : Bytes) : ∀ (fuel : Nat),
    SubtokensShift a (parseSubtokens fuel b) (parseSubtokens fuel (a ++ b))
  | 0, _, _, _ => by
      rw [parseSubtokens, parseSubtokens]
      rfl
  | fuel + 1, pos, end1, end2 => by
      rw [parseSubtokens, parseSubtokens, List.length_append]
      by_cases hpos : pos < b.length
      · rw [if_pos hpos, if_pos (by omega), getNextToken_shift a b fuel pos]
        cases getNextToken fuel b pos with
        | error e => rfl
        | ok r =>
            obtain ⟨t, pos'⟩ := r
            simp only [Except.map, bind, Except.bind]
            by_cases hstop : t.type = end1 ∨ t.type = end2
            · rw [if_pos hstop, if_pos hstop]
              rfl
            · rw [if_neg hstop, if_neg hstop, parseSubtokens_shift a b fuel]
              cases parseSubtokens fuel b pos' end1 end2 <;> rfl
      · rw [if_neg hpos, if_neg (by omega)]
        rfl

end

theorem parseLoop_shift (a b : Bytes) : ∀ (fuel pos : Nat),
    parseLoop fuel (a ++ b) (a.length + pos) = parseLoop fuel b pos
  | 0, _ => rfl
  | fuel + 1, pos => by
      rw [parseLoop, parseLoop, List.length_append]
      by_cases hpos : pos < b.length
      · rw [if_pos hpos, if_pos (by omega), getNextToken_shift a b fuel pos]
        cases getNextToken fuel b pos with
        | error e => rfl
        | ok r =>
            simp only [Except.map, bind, Except.bind]
            rw [parseLoop_shift a b fuel]
      · rw [if_neg hpos, if_neg (by omega)]

/-- The second text is read behind the first one as it is read alone. -/
theorem parseAt_append_right (a b : Bytes) (pos : Nat) (tokens : TokenList) :
    ParseAt (a ++ b) (a.length + pos) tokens ↔ ParseAt b pos tokens := by
  constructor
  · intro h
    have hloop := parseLoop_complete _ (Nat.le_refl _) h
    rw [parseLoop_shift] at hloop
    exact parseLoop_sound _ hloop
  · intro h
    have hloop := parseLoop_complete _ (Nat.le_refl _) h
    rw [← parseLoop_shift a b] at hloop
    exact parseLoop_sound _ hloop

end Second

/-! ## The seam -/

section Concat

variable {a b : Bytes}

theorem parseAt_cons_iff {data : Bytes} {pos pos' : Nat} {t : Token} (hpos : pos < data.length)
    (h : TokenAt data pos t pos') {tokens : TokenList} :
    ParseAt data pos tokens ↔ ∃ rest, tokens = t :: rest ∧ ParseAt data pos' rest := by
  constructor
  · intro hall
    cases hall with
    | eof hend => exact absurd hpos hend
    | cons _ h' hrest =>
        obtain ⟨rfl, rfl⟩ := h.unique hpos h'
        exact ⟨_, rfl, hrest⟩
  · rintro ⟨rest, rfl, hrest⟩
    exact .cons hpos h hrest

theorem parseAt_end_iff {data : Bytes} {tokens : TokenList} :
    ParseAt data data.length tokens ↔ tokens = [] := by
  constructor
  · intro h
    cases h with
    | eof => rfl
    | cons hpos => exact absurd hpos (Nat.lt_irrefl _)
  · rintro rfl
    exact .eof (Nat.lt_irrefl _)

/-- A text that ends the first template goes on up to the next tag of the second. -/
theorem tokenAt_seam {pos : Nat} (hpos : pos < a.length) (hnone : find "<%" a pos = none)
    (hseam : ¬ Seam a b) :
    TokenAt (a ++ b) pos (.string (a.drop pos ++ b.take ((find "<%" b 0).getD b.length)))
      (a.length + (find "<%" b 0).getD b.length) := by
  have hfind : find "<%" (a ++ b) pos = (find "<%" b 0).map (a.length + ·) :=
    Search.find_pair_append hnone hpos.le hseam
  have hopen : (find "<%" (a ++ b) pos).getD (a ++ b).length
      = a.length + (find "<%" b 0).getD b.length := by
    rw [hfind, List.length_append]
    cases find "<%" b 0 <;> rfl
  generalize (find "<%" b 0).getD b.length = specPos at hopen
  have htext : substr (a ++ b) pos (a.length + specPos - pos) = a.drop pos ++ b.take specPos := by
    rw [substr, List.drop_append_of_le_length hpos.le, List.take_append, List.length_drop,
      List.take_of_length_le (by rw [List.length_drop]; omega)]
    congr 2
    omega
  rw [← htext]
  exact .string hopen (by omega)

/-- The same in the first template alone. -/
theorem tokenAt_last {pos : Nat} (hpos : pos < a.length) (hnone : find "<%" a pos = none) :
    TokenAt a pos (.string (a.drop pos)) a.length := by
  have h := tokenAt_seam (b := []) hpos hnone (by simp [Seam])
  have hend : find "<%" [] 0 = none := rfl
  simpa [hend] using h

theorem TagAt.not_text {data body : Bytes} {pos pos' : Nat} {t : Token}
    (h : TagAt data body pos t pos') : t.type ≠ .tokenString := by
  cases h with
  | marker hm => cases hm <;> exact TokenType.noConfusion
  | _ => exact TokenType.noConfusion

/-- A text with a tag behind it. -/
theorem TokenAt.text_before {pos pos' i : Nat} {t : Token} (h : TokenAt a pos t pos')
    (hsome : find "<%" a pos = some i) (ht : t.type = .tokenString) : pos' < a.length := by
  cases h with
  | string hopen hne =>
      have hi := find_bounds (by decide) hsome
      have htwo : (bytes "<%").length = 2 := rfl
      rw [hsome, Option.getD_some] at hopen
      omega
  | tag hopen hclose h => exact absurd ht h.not_text

/-- A text in front of a template joins the text that this starts with. -/
theorem parseAt_seam_iff (s b : Bytes) (tokens : TokenList) :
    (∃ rest, tokens = .string (s ++ b.take ((find "<%" b 0).getD b.length)) :: rest
        ∧ ParseAt b ((find "<%" b 0).getD b.length) rest)
      ↔ ∃ ts', ParseAt b 0 ts' ∧ tokens = joinTokens [.string s] ts' := by
  generalize hopen : (find "<%" b 0).getD b.length = specPos
  by_cases hne : specPos = 0
  · -- no text in front of the first tag of `b`
    subst hne
    have hjoin : ∀ ts', ParseAt b 0 ts' → joinTokens [.string s] ts' = .string s :: ts' := by
      intro ts' hts'
      cases hts' with
      | eof => rfl
      | @cons _ _ t ts hpos h hrest =>
          cases h with
          | string hopen' hne => exact absurd (hopen'.symm.trans hopen) hne
          | tag _ _ h =>
              have ht := h.not_text
              cases t with
              | string s' => exact absurd rfl ht
              | _ => rfl
    constructor
    · rintro ⟨rest, rfl, hrest⟩
      exact ⟨rest, hrest, by rw [hjoin rest hrest, List.take_zero, List.append_nil]⟩
    · rintro ⟨ts', hts', rfl⟩
      exact ⟨ts', by rw [hjoin ts' hts', List.take_zero, List.append_nil], hts'⟩
  · have hpos : 0 < b.length := by
      rcases List.eq_nil_or_concat b with rfl | ⟨b', c, rfl⟩
      · exact absurd hopen.symm hne
      · simp
    have htext : TokenAt b 0 (.string (b.take specPos)) specPos := .string hopen hne
    simp only [parseAt_cons_iff hpos htext]
    constructor
    · rintro ⟨rest, rfl, hrest⟩
      exact ⟨_, ⟨rest, rfl, hrest⟩, rfl⟩
    · rintro ⟨ts', ⟨rest, rfl, hrest⟩, rfl⟩
      exact ⟨rest, rfl, hrest⟩

/-- Behind the first list the parser goes on with the second template. -/
theorem parseAt_append_iff (hseam : ¬ Seam a b) {pos : Nat} {ts : TokenList} (h : ParseAt a pos ts)
    (hle : pos ≤ a.length) {tokens : TokenList} :
    ParseAt (a ++ b) pos tokens ↔ ∃ ts', ParseAt b 0 ts' ∧ tokens = joinTokens ts ts' := by
  induction h generalizing tokens with
  | @eof pos hend =>
      obtain rfl : pos = a.length := by omega
      have hright := parseAt_append_right a b 0 tokens
      rw [Nat.add_zero] at hright
      rw [hright]
      simp [joinTokens]
  | @cons pos pos' t ts hpos h hrest ih =>
      have hlong : pos < (a ++ b).length := by
        rw [List.length_append]
        omega
      have hbounds := h.bounds hpos
      cases hfind : find "<%" a pos with
      | some i =>
          have hbefore := h.text_before hfind
          have hne : t.type = .tokenString → ts ≠ [] := fun hstring hnil => by
            subst hnil
            cases hrest with
            | eof hend => exact hend (hbefore hstring)
          rw [parseAt_cons_iff hlong (h.append b hpos hbefore)]
          constructor
          · rintro ⟨rest, rfl, hmore⟩
            obtain ⟨ts', hts', rfl⟩ := (ih hbounds.2).mp hmore
            exact ⟨ts', hts', (joinTokens_cons hne ts').symm⟩
          · rintro ⟨ts', hts', rfl⟩
            exact ⟨_, joinTokens_cons hne ts', (ih hbounds.2).mpr ⟨ts', hts', rfl⟩⟩
      | none =>
          obtain ⟨rfl, rfl⟩ := h.unique hpos (tokenAt_last hpos hfind)
          obtain rfl := parseAt_end_iff.mp hrest
          rw [parseAt_cons_iff hlong (tokenAt_seam hpos hfind hseam)]
          simp only [parseAt_append_right]
          exact parseAt_seam_iff (a.drop pos) b tokens

/-! ## Rendering -/

theorem yieldTokens_cons (arguments : ArgumentList) (arrayItem : Option Item) (t : Token)
    (ts : TokenList) :
    yieldTokens arguments arrayItem (t :: ts)
      = (do
          let here ← yieldToken arguments arrayItem t
          let after ← yieldTokens arguments arrayItem ts
          pure (here ++ after)) := by
  rw [yieldTokens]

/-- Joined lists render as one behind the other; the first failure wins. -/
theorem yieldTokens_joinTokens (arguments : ArgumentList) (arrayItem : Option Item)
    (ts ts' : TokenList) :
    yieldTokens arguments arrayItem (joinTokens ts ts')
      = (do
          let first ← yieldTokens arguments arrayItem ts
          let second ← yieldTokens arguments arrayItem ts'
          pure (first ++ second)) := by
  fun_induction joinTokens ts ts' with
  | case1 ts' =>
      rw [yieldTokens]
      cases yieldTokens arguments arrayItem ts' <;> rfl
  | case2 s s' ts' =>
      simp only [yieldTokens, yieldToken]
      cases yieldTokens arguments arrayItem ts' with
      | error e => rfl
      | ok rest => simp [bind, Except.bind, pure, Except.pure]
  | case3 t ts ts' _ ih =>
      rw [yieldTokens_cons, yieldTokens_cons, ih]
      cases yieldToken arguments arrayItem t with
      | error e => rfl
      | ok here =>
          cases yieldTokens arguments arrayItem ts with
          | error e => rfl
          | ok first =>
              cases yieldTokens arguments arrayItem ts' with
              | error e => rfl
              | ok second => simp [bind, Except.bind, pure, Except.pure]

/-- Behind a template that loads, another one loads if and only if it loads
alone, and both render as one behind the other, unless the seam makes a tag. -/
theorem parse_append {ts : TokenList} (h : parse a = .ok ts) (hseam : ¬ Seam a b) :
    ((∃ tokens, parse (a ++ b) = .ok tokens) ↔ ∃ ts', parse b = .ok ts')
    ∧ ∀ tokens ts', parse (a ++ b) = .ok tokens → parse b = .ok ts' → ∀ arguments,
        yield tokens arguments
          = (do
              let first ← yield ts arguments
              let second ← yield ts' arguments
              pure (first ++ second)) := by
  have hjoin : ∀ tokens, parse (a ++ b) = .ok tokens
      ↔ ∃ ts', parse b = .ok ts' ∧ tokens = joinTokens ts ts' := by
    intro tokens
    simp only [parse_iff] at h ⊢
    exact parseAt_append_iff hseam h (Nat.zero_le _)
  refine ⟨⟨?_, ?_⟩, ?_⟩
  · rintro ⟨tokens, htokens⟩
    obtain ⟨ts', hts', -⟩ := (hjoin tokens).mp htokens
    exact ⟨ts', hts'⟩
  · rintro ⟨ts', hts'⟩
    exact ⟨_, (hjoin _).mpr ⟨ts', hts', rfl⟩⟩
  · intro tokens ts' htokens hts' arguments
    obtain ⟨ts'', hts'', rfl⟩ := (hjoin tokens).mp htokens
    rw [hts'] at hts''
    cases hts''
    exact yieldTokens_joinTokens arguments none ts ts'

/-- A text cut in two, and a tag behind it. -/
theorem parse_append_sample :
    ((∃ tokens, parse (bytes "<%x%>a<" ++ bytes "b<%#if y%>c<%#end%>") = .ok tokens)
      ↔ ∃ ts', parse (bytes "b<%#if y%>c<%#end%>") = .ok ts')
    ∧ ∀ tokens ts', parse (bytes "<%x%>a<" ++ bytes "b<%#if y%>c<%#end%>") = .ok tokens →
        parse (bytes "b<%#if y%>c<%#end%>") = .ok ts' → ∀ arguments,
          yield tokens arguments
            = (do
                let first ← yield [.var (bytes "x"), .string (bytes "a<")] arguments
                let second ← yield ts' arguments
                pure (first ++ second)) :=
  parse_append (show parse (bytes "<%x%>a<") = .ok [.var (bytes "x"), .string (bytes "a<")] from rfl)
    (by decide)

end Concat

end Simurga
