import Simurga.TemplateGrammar

/-!
# The words of a tag

`get_next_token` tells the openers of a block by the first bytes of the
tag body and cuts the name off at a fixed place behind them. Where a blank
follows the word that is what it should be (`requiredToken`). Where
something else follows, the byte is lost and the tag opens a block of some
other name; where nothing follows, `substr` throws (`tag_treated_iff`).
-/

namespace Simurga

/-- The bodies that open a block, what ends its first list and the token it makes. -/
inductive IsOpener : Bytes → TokenType → (Bytes → TokenList → TokenList → Token) → Prop where
  | ifElse : IsOpener (bytes "#if") .tokenElse .ifElse
  | foreach : IsOpener (bytes "#for") .tokenSeparator .foreach

/-! ## What a tag should be -/

/-- The name behind the word of an opener and at least one blank. -/
def openerName (word body : Bytes) : Option Bytes :=
  let rest := body.drop word.length
  if word.isPrefixOf body ∧ (rest.head?.map isBlank = some true ∧ trim rest ≠ []) then
    some (trim rest)
  else none

/-- A body that starts with `#`: one of the three markers, an opener with a
name, or an error. -/
def requiredToken (subtokens : Subtokens) (body : Bytes) (pos : Nat) :
    Except Thrown (Token × Nat) :=
  if body = bytes "#end" then .ok (.endMark, pos)
  else if body = bytes "#sep" then .ok (.sepMark, pos)
  else if body = bytes "#else" then .ok (.elseMark, pos)
  else
    match openerName (bytes "#if") body, openerName (bytes "#for") body with
    | some name, _ => (parseBlock subtokens .tokenElse pos).map fun (ifTrue, ifFalse, pos) =>
        (.ifElse name ifTrue ifFalse, pos)
    | none, some name => (parseBlock subtokens .tokenSeparator pos).map fun (body, sep, pos) =>
        (.foreach name body sep, pos)
    | none, none => .error (.runtimeError (bytes "invalid template special tag"))

/-- The word of an opener without a blank behind it. -/
def Attached (word body : Bytes) : Prop :=
  word <+: body ∧ (body.drop word.length).head?.map isBlank ≠ some true

instance (word body : Bytes) : Decidable (Attached word body) := inferInstanceAs (Decidable (_ ∧ _))

/-! ## What it is -/

section Tag

variable {word body : Bytes} {mid : TokenType} {make : Bytes → TokenList → TokenList → Token}

/-- One byte behind the word is dropped, whatever it is. -/
theorem IsOpener.tagToken_append (h : IsOpener word mid make) (sub : Subtokens) (c : UInt8)
    (name : Bytes) (pos : Nat) :
    tagToken sub (word ++ c :: name) pos
      = (parseBlock sub mid pos).map fun (first, second, pos) =>
          (make (trim name) first second, pos) := by
  cases h with
  | ifElse => exact tagToken_if c name sub pos
  | foreach => exact tagToken_for c name sub pos

/-- With nothing behind the word `substr` starts past the end. -/
theorem IsOpener.tagToken_bare (h : IsOpener word mid make) (sub : Subtokens) (pos : Nat) :
    tagToken sub word pos = .error .outOfRange := by
  cases h <;> rfl

theorem tagToken_other (hhash : body.head? = some '#'.toUInt8)
    (hmarker : body ≠ bytes "#end" ∧ body ≠ bytes "#sep" ∧ body ≠ bytes "#else")
    (hif : ¬ bytes "#if" <+: body) (hfor : ¬ bytes "#for" <+: body) (sub : Subtokens) (pos : Nat) :
    tagToken sub body pos = .error (.runtimeError (bytes "invalid template special tag")) := by
  have hne : body ≠ [] := by
    rintro rfl
    cases hhash
  have htake : ∀ word : Bytes, ¬ word <+: body → ¬ substr body 0 word.length = word :=
    fun word hword heq => hword (heq ▸ List.take_prefix ..)
  have hif' : ¬ substr body 0 3 = bytes "#if" := htake _ hif
  have hfor' : ¬ substr body 0 4 = bytes "#for" := htake _ hfor
  rw [tagToken, if_neg hne, if_neg (by simp [hhash]), if_neg hmarker.1, if_neg hmarker.2.1,
    if_neg hmarker.2.2, if_neg hif', if_neg hfor']

theorem IsOpener.not_marker (h : IsOpener word mid make) (rest : Bytes) :
    word ++ rest ≠ bytes "#end" ∧ word ++ rest ≠ bytes "#sep" ∧ word ++ rest ≠ bytes "#else" := by
  refine ⟨fun heq => ?_, fun heq => ?_, fun heq => ?_⟩
  · cases h <;> cases heq
  · cases h <;> cases heq
  · cases h <;> cases heq

/-! ## Where the two agree -/

/-- A blank behind the word: the rest, trimmed, is the name. -/
theorem IsOpener.required_append (h : IsOpener word mid make) {c : UInt8} {name : Bytes}
    (hc : isBlank c = true) (hname : trim name ≠ []) (sub : Subtokens) (pos : Nat) :
    requiredToken sub (word ++ c :: name) pos
      = (parseBlock sub mid pos).map fun (first, second, pos) =>
          (make (trim name) first second, pos) := by
  have htrim : trim (c :: name) = trim name := by
    rw [trim, trim, Search.trim, List.dropWhile_cons_of_pos hc]
    rfl
  have hopener : openerName word (word ++ c :: name) = some (trim name) := by
    rw [openerName, List.drop_left]
    simp [hc, htrim, hname]
  have hmarker := h.not_marker (c :: name)
  rw [requiredToken, if_neg hmarker.1, if_neg hmarker.2.1, if_neg hmarker.2.2]
  cases h with
  | ifElse => rw [hopener]
  | foreach =>
      have hnone : openerName (bytes "#if") (bytes "#for" ++ c :: name) = none := rfl
      rw [hnone, hopener]

theorem openerName_of_attached (h : Attached word body) : openerName word body = none :=
  if_neg fun hopens => h.2 hopens.2.1

theorem openerName_of_detached (h : ¬ word <+: body) : openerName word body = none :=
  if_neg fun hopens => h (List.isPrefixOf_iff_prefix.mp hopens.1)

/-- Neither word with a name behind it: an error of the parser's own. -/
theorem required_error (hmarker : body ≠ bytes "#end" ∧ body ≠ bytes "#sep" ∧ body ≠ bytes "#else")
    (hif : openerName (bytes "#if") body = none) (hfor : openerName (bytes "#for") body = none)
    (sub : Subtokens) (pos : Nat) :
    requiredToken sub body pos = .error (.runtimeError (bytes "invalid template special tag")) := by
  rw [requiredToken, if_neg hmarker.1, if_neg hmarker.2.1, if_neg hmarker.2.2, hif, hfor]

/-- The other word is no prefix. -/
theorem IsOpener.only (h : IsOpener word mid make) (rest : Bytes) :
    (word = bytes "#if" ∧ ¬ bytes "#for" <+: word ++ rest)
      ∨ (word = bytes "#for" ∧ ¬ bytes "#if" <+: word ++ rest) := by
  cases h with
  | ifElse =>
      refine Or.inl ⟨rfl, ?_⟩
      rintro ⟨_, hcut⟩
      cases hcut
  | foreach =>
      refine Or.inr ⟨rfl, ?_⟩
      rintro ⟨_, hcut⟩
      cases hcut

/-- An attached word is an error that the parser does not report as its own. -/
theorem IsOpener.not_treated (h : IsOpener word mid make) (hattached : Attached word body) :
    ∃ sub pos, tagToken sub body pos ≠ requiredToken sub body pos := by
  obtain ⟨⟨rest, rfl⟩, hrest⟩ := hattached
  have hopener : openerName word (word ++ rest) = none :=
    openerName_of_attached ⟨List.prefix_append .., hrest⟩
  have hmarker := h.not_marker rest
  have hnone : openerName (bytes "#if") (word ++ rest) = none
      ∧ openerName (bytes "#for") (word ++ rest) = none := by
    rcases h.only rest with ⟨rfl, hnot⟩ | ⟨rfl, hnot⟩
    · exact ⟨hopener, openerName_of_detached hnot⟩
    · exact ⟨openerName_of_detached hnot, hopener⟩
  -- a block that is empty and closed at once
  refine ⟨fun pos _ _ => .ok ([], .tokenEnd, pos), 0, ?_⟩
  rw [required_error hmarker hnone.1 hnone.2]
  cases rest with
  | nil =>
      rw [List.append_nil, h.tagToken_bare]
      intro heq
      cases heq
  | cons c name =>
      rw [h.tagToken_append]
      intro heq
      cases h <;> cases heq

/-- A trimmed body does not end with a blank, so there is a name behind one. -/
theorem trim_ne_nil_of_trimmed {c : UInt8} {name : Bytes} (hc : isBlank c = true)
    (htrim : trim (word ++ c :: name) = word ++ c :: name) : trim name ≠ [] := by
  intro hnil
  obtain ⟨l, r, hpad, hl, hr⟩ := Search.exists_pad isBlank name
  change name = l ++ trim name ++ r at hpad
  rw [hnil, List.append_nil] at hpad
  have hall : ∀ d ∈ c :: name, isBlank d = true := by
    intro d hd
    rw [hpad] at hd
    rcases List.mem_cons.mp hd with rfl | hd
    · exact hc
    · exact (List.mem_append.mp hd).elim (hl d) (hr d)
  have hlast := ((Search.trim_eq_self_iff (by simp)).mp htrim).2
  rw [List.getLast_append_of_ne_nil (by simp) (List.cons_ne_nil c name)] at hlast
  exact hlast (hall _ (List.getLast_mem _))

theorem IsOpener.treated (h : IsOpener word mid make) (hword : word <+: body)
    (htrim : trim body = body) (hnot : ¬ Attached word body) (sub : Subtokens) (pos : Nat) :
    tagToken sub body pos = requiredToken sub body pos := by
  obtain ⟨rest, rfl⟩ := hword
  have hblank : rest.head?.map isBlank = some true := by
    by_contra hrest
    exact hnot ⟨List.prefix_append .., by rwa [List.drop_left]⟩
  cases rest with
  | nil => cases hblank
  | cons c name =>
      have hc : isBlank c = true := by simpa using hblank
      rw [h.tagToken_append, h.required_append hc (trim_ne_nil_of_trimmed hc htrim)]

/-- A trimmed body is treated as it should be unless a word is attached. -/
theorem treated_of_not_attached (hhash : body.head? = some '#'.toUInt8) (htrim : trim body = body)
    (hif : ¬ Attached (bytes "#if") body) (hfor : ¬ Attached (bytes "#for") body) (sub : Subtokens)
    (pos : Nat) : tagToken sub body pos = requiredToken sub body pos := by
  by_cases hifp : bytes "#if" <+: body
  · exact IsOpener.ifElse.treated hifp htrim hif sub pos
  by_cases hforp : bytes "#for" <+: body
  · exact IsOpener.foreach.treated hforp htrim hfor sub pos
  by_cases hmarker : body ≠ bytes "#end" ∧ body ≠ bytes "#sep" ∧ body ≠ bytes "#else"
  · rw [tagToken_other hhash hmarker hifp hforp, required_error hmarker
      (openerName_of_detached hifp) (openerName_of_detached hforp)]
  · obtain ⟨m, hm⟩ : ∃ m, IsMarker m body := by
      simp only [not_and_or, not_ne_iff] at hmarker
      rcases hmarker with rfl | rfl | rfl
      · exact ⟨_, .endMark⟩
      · exact ⟨_, .sepMark⟩
      · exact ⟨_, .elseMark⟩
    cases hm <;> rfl

end Tag

/-- The parser at a tag whose body starts with `#` goes by the body, and
treats it as it should if and only if neither word is attached to what
follows it. -/
theorem tag_treated_iff {data : Bytes} {pos specEnd : Nat} (hopen : find "<%" data pos = some pos)
    (hclose : find "%>" data (pos + 2) = some specEnd)
    (hhash : (trim (substr data (pos + 2) (specEnd - (pos + 2)))).head? = some '#'.toUInt8) :
    (∀ fuel, getNextToken (fuel + 1) data pos
      = tagToken (parseSubtokens fuel data) (trim (substr data (pos + 2) (specEnd - (pos + 2))))
          (specEnd + 2))
    ∧ ((∀ sub pos', tagToken sub (trim (substr data (pos + 2) (specEnd - (pos + 2)))) pos'
          = requiredToken sub (trim (substr data (pos + 2) (specEnd - (pos + 2)))) pos')
      ↔ ¬ Attached (bytes "#if") (trim (substr data (pos + 2) (specEnd - (pos + 2))))
        ∧ ¬ Attached (bytes "#for") (trim (substr data (pos + 2) (specEnd - (pos + 2))))) := by
  constructor
  · intro fuel
    rw [getNextToken]
    simp only [hopen, Option.getD_some, ne_eq, not_true_eq_false, if_false, hclose]
  · generalize hbody : trim (substr data (pos + 2) (specEnd - (pos + 2))) = body at hhash
    have htrim : trim body = body := by
      rw [← hbody]
      exact Search.trim_trim isBlank _
    constructor
    · intro htreated
      refine ⟨fun hattached => ?_, fun hattached => ?_⟩
      · obtain ⟨sub, pos', hne⟩ := IsOpener.ifElse.not_treated hattached
        exact hne (htreated sub pos')
      · obtain ⟨sub, pos', hne⟩ := IsOpener.foreach.not_treated hattached
        exact hne (htreated sub pos')
    · exact fun h sub pos' => treated_of_not_attached hhash htrim h.1 h.2 sub pos'

theorem tag_treated_iff_sample :
    (∀ fuel, getNextToken (fuel + 1) (bytes "a<% #for x y%>") 1
      = tagToken (parseSubtokens fuel (bytes "a<% #for x y%>")) (bytes "#for x y") 14)
    ∧ ∀ sub pos', tagToken sub (bytes "#for x y") pos' = requiredToken sub (bytes "#for x y") pos' := by
  have h := tag_treated_iff (show find "<%" (bytes "a<% #for x y%>") 1 = some 1 from rfl)
    (show find "%>" (bytes "a<% #for x y%>") 3 = some 12 from rfl) rfl
  exact ⟨h.1, h.2.mpr (by decide)⟩

/-- A lost byte, a cut name, and an exception of `substr`. -/
theorem tag_misread :
    parse (bytes "<%#ifx%>a<%#end%>") = .ok [.ifElse [] [.string (bytes "a")] []]
      ∧ parse (bytes "<%#foreach x%>a<%#end%>") = .ok [.foreach (bytes "ach x") [.string (bytes "a")] []]
      ∧ parse (bytes "<%#if%>a<%#end%>") = .error .outOfRange
      ∧ ¬ ∀ sub pos, tagToken sub (bytes "#ifx") pos = requiredToken sub (bytes "#ifx") pos := by
  refine ⟨rfl, rfl, rfl, fun h => ?_⟩
  obtain ⟨sub, pos, hne⟩ := IsOpener.ifElse.not_treated
    (show Attached (bytes "#if") (bytes "#ifx") by decide)
  exact hne (h sub pos)

end Simurga
