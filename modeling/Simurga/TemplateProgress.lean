import Simurga.TemplateGrammar
import Simurga.Lib.Fuel

/-!
# The parser ends

Every token moves the position on and none moves it past the end, so the
fuel that is needed is bounded by the bytes that are left. With that much
the functions of the parser do not run out of it, and more does not change
what they return (`getNextToken_stable`). The loop of `parse` thus ends for
every text, with an exception or at the end of the text
(`parse_progress`).
-/

namespace Simurga

/-! ## Two fuels -/

/-- The parameters of `tagToken` do the same from a position on, and none of
them runs out of fuel. -/
structure SameFrom (pos : Nat) (sub sub' : Subtokens) : Prop where
  eq : ∀ {pos'}, pos ≤ pos' → ∀ end1 end2, sub pos' end1 end2 = sub' pos' end1 end2
  fueled : ∀ {pos'}, pos ≤ pos' → ∀ end1 end2, sub pos' end1 end2 ≠ .error .outOfFuel
  moves : ∀ {pos' end1 end2 tokens stop pos''},
    sub pos' end1 end2 = .ok (tokens, stop, pos'') → pos' ≤ pos''

theorem bind_ne_outOfFuel {α β : Type} {x : Except Thrown α} {f : α → Except Thrown β}
    (hx : x ≠ .error .outOfFuel) (hf : ∀ a, x = .ok a → f a ≠ .error .outOfFuel) :
    x >>= f ≠ .error .outOfFuel := by
  cases x with
  | error e => exact fun h => hx (by cases h; rfl)
  | ok a => exact hf a rfl

theorem bind_congr_ok {α β : Type} {x : Except Thrown α} {f g : α → Except Thrown β}
    (h : ∀ a, x = .ok a → f a = g a) : x >>= f = x >>= g := by
  cases x with
  | error e => rfl
  | ok a => exact h a rfl

section Block

variable {pos : Nat} {sub sub' : Subtokens} {mid : TokenType}

theorem SameFrom.parseBlock_eq (h : SameFrom pos sub sub') :
    parseBlock sub mid pos = parseBlock sub' mid pos := by
  unfold parseBlock
  rw [← h.eq (Nat.le_refl pos)]
  refine bind_congr_ok fun (first, stop, pos') hfirst => ?_
  dsimp only
  split
  · rw [h.eq (h.moves hfirst)]
  · rfl

theorem SameFrom.parseBlock_fueled (h : SameFrom pos sub sub') :
    parseBlock sub mid pos ≠ .error .outOfFuel := by
  unfold parseBlock
  refine bind_ne_outOfFuel (h.fueled (Nat.le_refl pos) _ _) fun (first, stop, pos') hfirst => ?_
  dsimp only
  split
  · exact bind_ne_outOfFuel (h.fueled (h.moves hfirst) _ _) fun _ _ => by simp [pure, Except.pure]
  · simp [pure, Except.pure]

theorem SameFrom.tagToken_eq (h : SameFrom pos sub sub') (body : Bytes) :
    tagToken sub body pos = tagToken sub' body pos := by
  unfold tagToken
  rw [h.parseBlock_eq, h.parseBlock_eq]

theorem substrFrom_fueled (s : Bytes) (pos : Nat) : substrFrom s pos ≠ .error .outOfFuel := by
  unfold substrFrom
  split <;> simp

theorem SameFrom.tagToken_fueled (h : SameFrom pos sub sub') (body : Bytes) :
    tagToken sub body pos ≠ .error .outOfFuel := by
  have hblock : ∀ {n : Nat} {mid : TokenType} (make : Bytes → TokenList → TokenList → Token),
      (do
        let name ← substrFrom body n
        let r ← parseBlock sub mid pos
        pure (make name r.1 r.2.1, r.2.2)) ≠ (Except.error Thrown.outOfFuel : Except _ (Token × Nat)) :=
    fun make => bind_ne_outOfFuel (substrFrom_fueled body _) fun _ _ =>
      bind_ne_outOfFuel h.parseBlock_fueled fun _ _ => by simp [pure, Except.pure]
  unfold tagToken
  split
  · simp
  split
  · simp
  split
  · simp
  split
  · simp
  split
  · simp
  split
  · exact hblock fun name first second => .ifElse (trim name) first second
  split
  · exact hblock fun name first second => .foreach (trim name) first second
  · simp

end Block

mutual

/-- Fuel for the bytes that are left is enough, and more does not matter. -/
theorem getNextToken_stable {data : Bytes} : ∀ (fuel fuel' : Nat) {pos : Nat}, pos < data.length →
    2 * (data.length - pos) + 1 ≤ fuel → fuel ≤ fuel' →
      getNextToken fuel data pos = getNextToken fuel' data pos
      ∧ getNextToken fuel data pos ≠ .error .outOfFuel
  | 0, _, _, _, hfuel, _ => by omega
  | fuel + 1, 0, _, _, _, hle => by omega
  | fuel + 1, fuel' + 1, pos, hpos, hfuel, hle => by
      rw [getNextToken, getNextToken]
      by_cases hopen : (find "<%" data pos).getD data.length = pos
      · simp only [hopen, ne_eq, not_true_eq_false, if_false]
        cases hclose : find "%>" data (pos + 2) with
        | none => simp
        | some specEnd =>
            have hend := find_bounds (by decide) hclose
            have hsame : SameFrom (specEnd + 2) (parseSubtokens fuel data)
                (parseSubtokens fuel' data) :=
              { eq := fun hpos' end1 end2 =>
                  (parseSubtokens_stable fuel fuel' (by omega) (by omega) end1 end2).1
                fueled := fun hpos' end1 end2 =>
                  (parseSubtokens_stable fuel fuel' (by omega) (by omega) end1 end2).2
                moves := fun h => (parseSubtokens_sound fuel h).bounds.1.le }
            exact ⟨hsame.tagToken_eq _, hsame.tagToken_fueled _⟩
      · simp only [ne_eq, hopen, not_false_eq_true, if_true]
        simp

theorem parseSubtokens_stable {data : Bytes} : ∀ (fuel fuel' : Nat) {pos : Nat},
    2 * (data.length - pos) + 2 ≤ fuel → fuel ≤ fuel' → ∀ end1 end2,
      parseSubtokens fuel data pos end1 end2 = parseSubtokens fuel' data pos end1 end2
      ∧ parseSubtokens fuel data pos end1 end2 ≠ .error .outOfFuel
  | 0, _, _, hfuel, _, _, _ => by omega
  | fuel + 1, 0, _, _, hle, _, _ => by omega
  | fuel + 1, fuel' + 1, pos, hfuel, hle, end1, end2 => by
      rw [parseSubtokens, parseSubtokens]
      by_cases hpos : pos < data.length
      · obtain ⟨heq, hfueled⟩ := getNextToken_stable fuel fuel' hpos (by omega) (by omega)
        rw [if_pos hpos, if_pos hpos, ← heq]
        have hrest : ∀ {t : Token} {pos' : Nat}, getNextToken fuel data pos = .ok (t, pos') →
            parseSubtokens fuel data pos' end1 end2 = parseSubtokens fuel' data pos' end1 end2
            ∧ parseSubtokens fuel data pos' end1 end2 ≠ .error .outOfFuel := by
          intro t pos' hget
          have hmoves := (getNextToken_sound fuel hget).bounds hpos
          exact parseSubtokens_stable fuel fuel' (by omega) (by omega) end1 end2
        constructor
        · refine bind_congr_ok fun (t, pos') hget => ?_
          dsimp only
          rw [(hrest hget).1]
        · refine bind_ne_outOfFuel hfueled fun (t, pos') hget => ?_
          dsimp only
          split
          · simp [pure, Except.pure]
          · exact bind_ne_outOfFuel (hrest hget).2 fun _ _ => by simp [pure, Except.pure]
      · rw [if_neg hpos, if_neg hpos]
        simp

end

theorem parseLoop_stable {data : Bytes} : ∀ (fuel fuel' : Nat) {pos : Nat},
    2 * (data.length - pos) + 2 ≤ fuel → fuel ≤ fuel' →
      parseLoop fuel data pos = parseLoop fuel' data pos
      ∧ parseLoop fuel data pos ≠ .error .outOfFuel
  | 0, _, _, hfuel, _ => by omega
  | fuel + 1, 0, _, _, hle => by omega
  | fuel + 1, fuel' + 1, pos, hfuel, hle => by
      rw [parseLoop, parseLoop]
      by_cases hpos : pos < data.length
      · obtain ⟨heq, hfueled⟩ := getNextToken_stable fuel fuel' hpos (by omega) (by omega)
        rw [if_pos hpos, if_pos hpos, ← heq]
        have hrest : ∀ {t : Token} {pos' : Nat}, getNextToken fuel data pos = .ok (t, pos') →
            parseLoop fuel data pos' = parseLoop fuel' data pos'
            ∧ parseLoop fuel data pos' ≠ .error .outOfFuel := by
          intro t pos' hget
          have hmoves := (getNextToken_sound fuel hget).bounds hpos
          exact parseLoop_stable fuel fuel' (by omega) (by omega)
        constructor
        · refine bind_congr_ok fun (t, pos') hget => ?_
          dsimp only
          rw [(hrest hget).1]
        · refine bind_ne_outOfFuel hfueled fun (t, pos') hget => ?_
          exact bind_ne_outOfFuel (hrest hget).2 fun _ _ => by simp [pure, Except.pure]
      · rw [if_neg hpos, if_neg hpos]
        simp [pure, Except.pure]

/-! ## The position -/

/-- The loop of `parse`, call by call: the tokens from one position to another. -/
inductive Consumes (data : Bytes) : Nat → TokenList → Nat → Prop where
  | done (pos : Nat) : Consumes data pos [] pos
  | call {fuel pos pos' pos'' : Nat} {t : Token} {ts : TokenList} (hpos : pos < data.length)
      (hcall : getNextToken fuel data pos = .ok (t, pos')) (hrest : Consumes data pos' ts pos'') :
      Consumes data pos (t :: ts) pos''

/-- The loop returns at the end of the text only. -/
theorem parseLoop_consumes {data : Bytes} : ∀ (fuel : Nat) {pos : Nat} {tokens : TokenList},
    pos ≤ data.length → parseLoop fuel data pos = .ok tokens → Consumes data pos tokens data.length
  | 0, _, _, _, h => by rw [parseLoop] at h; cases h
  | fuel + 1, pos, tokens, hle, h => by
      rw [parseLoop] at h
      split at h
      · rename_i hpos
        obtain ⟨⟨t, pos'⟩, hget, h⟩ := bind_eq_ok h
        obtain ⟨ts, hrest, h⟩ := bind_eq_ok h
        cases h
        have hmoves := (getNextToken_sound fuel hget).bounds hpos
        exact .call hpos hget (parseLoop_consumes fuel hmoves.2 hrest)
      · cases h
        obtain rfl : pos = data.length := by omega
        exact .done _

/-- From every position inside the text both functions of the parser end,
and a token moves the position on, to the end of the text at most. So
`parse` ends for every text, with an exception or with the position at its
end. -/
theorem parse_progress (data : Bytes) :
    (∀ pos, pos < data.length →
      Fuel.Halts (.error .outOfFuel) (fun fuel => getNextToken fuel data pos)
      ∧ ∀ end1 end2,
        Fuel.Halts (.error .outOfFuel) (fun fuel => parseSubtokens fuel data pos end1 end2))
    ∧ (∀ fuel pos t pos', pos < data.length → getNextToken fuel data pos = .ok (t, pos') →
        pos < pos' ∧ pos' ≤ data.length)
    ∧ Fuel.Settles (fun fuel => parseLoop fuel data 0) (parse data)
    ∧ ((∃ e, e ≠ .outOfFuel ∧ parse data = .error e)
      ∨ ∃ tokens, parse data = .ok tokens ∧ Consumes data 0 tokens data.length) := by
  have hloop : ∀ fuel', parseFuel data ≤ fuel' →
      parseLoop (parseFuel data) data 0 = parseLoop fuel' data 0
      ∧ parseLoop (parseFuel data) data 0 ≠ .error .outOfFuel :=
    fun fuel' hle => parseLoop_stable (parseFuel data) fuel' (by simp [parseFuel]) hle
  refine ⟨fun pos hpos => ⟨?_, fun end1 end2 => ?_⟩, fun fuel pos t pos' hpos h => ?_, ?_, ?_⟩
  · exact Fuel.halts_of_stable fun fuel' hle =>
      getNextToken_stable (2 * (data.length - pos) + 1) fuel' hpos (Nat.le_refl _) hle
  · exact Fuel.halts_of_stable fun fuel' hle =>
      parseSubtokens_stable (2 * (data.length - pos) + 2) fuel' (Nat.le_refl _) hle end1 end2
  · exact (getNextToken_sound fuel h).bounds hpos
  · exact ⟨parseFuel data, fun fuel' hle => (hloop fuel' hle).1.symm⟩
  · cases hparse : parse data with
    | error e => exact Or.inl ⟨e, fun he => (hloop _ (Nat.le_refl _)).2 (he ▸ hparse), rfl⟩
    | ok tokens => exact Or.inr ⟨tokens, rfl, parseLoop_consumes _ (Nat.zero_le _) hparse⟩

end Simurga
