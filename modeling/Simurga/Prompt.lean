import Simurga.Lib.Perl
import Simurga.Lib.Regex

/-!
# Typed paragraphs

`prompt_long` and `prompt_html` of `Simurga.pm`. The scripts run with
`-CS`, so what is typed are characters, and `\s` is the white space of
Unicode. A line is put behind a newline if the text so far is true, and `0`
is not; `promptHtml_iff` says which paragraphs survive that.
-/

namespace Simurga

/-- `\s`. -/
def isWhite (c : Char) : Bool :=
  ('\t' ≤ c && c ≤ '\r') || c = ' ' || c = '\x85' || c = '\xa0' || c = '\u1680'
    || ('\u2000' ≤ c && c ≤ '\u200a') || c = '\u2028' || c = '\u2029' || c = '\u202f'
    || c = '\u205f' || c = '\u3000'

/-- `if $text`, for a text that is defined. -/
def isTrueText (text : List Char) : Bool := text ≠ [] && text ≠ ['0']

namespace Prompt

/-- One line behind `$result`. -/
def addLine (result line : List Char) : List Char :=
  result ++ (if isTrueText result then ['\n'] else []) ++ line

/-- The loop of `prompt_long`. -/
def loop : List Char → List (List Char) → List Char
  | result, [] => result
  | result, line :: lines =>
      let line := Perl.chomp '\n' line
      if line = ['.'] then result else loop (addLine result line) lines

/-- What `prompt_long` returns; the title only goes to the terminal. -/
def promptLong (stdin : List Char) : List Char := loop [] (Perl.readLines '\n' stdin)

/-- `/\s*\n\s*\n\s*/`. -/
def blankLines : List (Regex.Atom Char) :=
  [.star isWhite, .one (· = '\n'), .star isWhite, .one (· = '\n'), .star isWhite]

/-- What `prompt_html` returns. -/
def promptHtml (stdin : List Char) : List Char :=
  let lines := Regex.split blankLines (promptLong stdin)
  "<p>\n".toList ++ "\n</p>\n<p>\n".toList.intercalate lines ++ "\n</p>\n".toList

/-! ## What is typed -/

/-- A paragraph. -/
structure Paragraph where
  text : List Char
  ne : text ≠ []
  head : ∀ c ∈ text.head?, ¬ isWhite c = true
  last : ∀ c ∈ text.getLast?, ¬ isWhite c = true
  notBlank : ∀ line ∈ text.splitOn '\n', ∃ c ∈ line, ¬ isWhite c = true
  notDot : ['.'] ∉ text.splitOn '\n'

/-- The blank lines between two paragraphs. -/
structure Gap where
  lines : List (List Char)
  ne : lines ≠ []
  blank : ∀ line ∈ lines, ∀ c ∈ line, isWhite c = true
  oneLine : ∀ line ∈ lines, '\n' ∉ line

def Paragraph.lines (p : Paragraph) : List (List Char) := p.text.splitOn '\n'

/-- The lines behind the first paragraph. -/
def behind (rest : List (Gap × Paragraph)) : List (List Char) :=
  rest.flatMap fun r => r.1.lines ++ r.2.lines

/-- The lines of the paragraphs and of the gaps, in order. -/
def typed (p : Paragraph) (rest : List (Gap × Paragraph)) : List (List Char) :=
  p.lines ++ behind rest

/-- The lines as they are entered, the one that ends them, and what comes
after it. -/
def entered (lines : List (List Char)) (after : List Char) : List Char :=
  lines.flatMap (· ++ ['\n']) ++ '.' :: '\n' :: after

/-! ## The loop -/

theorem loop_entered {result : List Char} {lines : List (List Char)}
    (h : ∀ line ∈ lines, '\n' ∉ line ∧ line ≠ ['.']) (after : List Char) :
    loop result (Perl.readLines '\n' (entered lines after)) = lines.foldl addLine result := by
  induction lines generalizing result with
  | nil =>
      have hdot : entered [] after = ['.'] ++ '\n' :: after := rfl
      rw [hdot, Perl.readLines_append (by decide), loop, Perl.chomp_append]
      exact if_pos rfl
  | cons line lines ih =>
      obtain ⟨hline, hdot⟩ := h line (List.mem_cons_self ..)
      have hentered : entered (line :: lines) after = line ++ '\n' :: entered lines after := by
        simp [entered]
      rw [hentered, Perl.readLines_append hline, loop, Perl.chomp_append, List.foldl_cons,
        if_neg hdot]
      exact ih fun l hl => h l (List.mem_cons_of_mem _ hl)

theorem intercalate_cons (sep x : List Char) (xs : List (List Char)) :
    sep.intercalate (x :: xs) = x ++ xs.flatMap (sep ++ ·) := by
  induction xs generalizing x with
  | nil => simp
  | cons y xs ih => simp [List.intercalate_cons_cons, ih y]

/-- Each line behind a newline. -/
def below (lines : List (List Char)) : List Char := lines.flatMap ('\n' :: ·)

theorem below_append (ls ls' : List (List Char)) : below (ls ++ ls') = below ls ++ below ls' :=
  List.flatMap_append ..

/-- A text that is true stays true, and the lines go below each other. -/
theorem foldl_addLine {result : List Char} (h : isTrueText result = true) (lines : List (List Char)) :
    lines.foldl addLine result = result ++ below lines := by
  induction lines generalizing result with
  | nil => exact (List.append_nil _).symm
  | cons line lines ih =>
      have hadd : addLine result line = result ++ '\n' :: line := by simp [addLine, h]
      have htrue : isTrueText (result ++ '\n' :: line) = true := by
        have hne : result ≠ [] := by
          rintro rfl
          cases h
        obtain ⟨c, s, rfl⟩ := List.exists_cons_of_ne_nil hne
        simp [isTrueText]
      rw [List.foldl_cons, hadd, ih htrue]
      simp [below]

/-- The text `0` is not true: the next line that is not empty is put right
behind it. -/
theorem foldl_addLine_zero (lines : List (List Char)) :
    lines.foldl addLine ['0'] = '0' :: ['\n'].intercalate (lines.dropWhile (· = [])) := by
  induction lines with
  | nil => rfl
  | cons line lines ih =>
      have hadd : addLine ['0'] line = '0' :: line := rfl
      rw [List.foldl_cons, hadd]
      by_cases hline : line = []
      · rw [hline, ih, List.dropWhile_cons_of_pos (by simp)]
      · have htrue : isTrueText ('0' :: line) = true := by simp [isTrueText, hline]
        rw [foldl_addLine htrue, List.dropWhile_cons_of_neg (by simpa using hline),
          intercalate_cons]
        rfl

/-! ## Paragraphs and gaps -/

namespace Paragraph

theorem intercalate_lines (p : Paragraph) : ['\n'].intercalate p.lines = p.text :=
  List.intercalate_splitOn ..

theorem exists_lines (p : Paragraph) : ∃ line lines, p.lines = line :: lines
    ∧ p.text = line ++ below lines := by
  obtain ⟨line, lines, h⟩ := List.exists_cons_of_ne_nil (List.splitOn_ne_nil '\n' p.text)
  refine ⟨line, lines, h, ?_⟩
  rw [← p.intercalate_lines, show p.lines = line :: lines from h, intercalate_cons]
  rfl

theorem solid (p : Paragraph) : Regex.Solid isWhite '\n' 2 p.text :=
  ⟨p.ne, p.head, p.last, fun _ hy => Regex.marks_lt_two p.notBlank hy⟩

theorem not_newline {p : Paragraph} {line : List Char} (h : line ∈ p.lines) : '\n' ∉ line :=
  Perl.not_mem_of_mem_splitOn h

end Paragraph

/-- The characters of a gap and the newlines around its lines. -/
def Gap.text (gap : Gap) : List Char := below gap.lines ++ ['\n']

theorem isWhite_below {lines : List (List Char)} (h : ∀ line ∈ lines, ∀ c ∈ line, isWhite c = true) :
    ∀ c ∈ below lines ++ ['\n'], isWhite c = true := by
  intro c hc
  rcases List.mem_append.mp hc with hc | hc
  · obtain ⟨line, hline, hc⟩ := List.mem_flatMap.mp hc
    rcases List.mem_cons.mp hc with rfl | hc
    · rfl
    · exact h line hline c hc
  · obtain rfl := List.mem_singleton.mp hc
    rfl

theorem count_below {lines : List (List Char)} (h : ∀ line ∈ lines, '\n' ∉ line) :
    (below lines ++ ['\n']).count '\n' = lines.length + 1 := by
  have hcount : (below lines).count '\n' = lines.length := by
    induction lines with
    | nil => rfl
    | cons line lines ih =>
        have hline : line.count '\n' = 0 := List.count_eq_zero.mpr (h line (List.mem_cons_self ..))
        have hrest := ih fun l hl => h l (List.mem_cons_of_mem _ hl)
        rw [below] at hrest ⊢
        rw [List.flatMap_cons, List.count_append, List.count_cons_self, hline, hrest,
          List.length_cons, Nat.add_comm]
  rw [List.count_append, hcount]
  rfl

theorem Gap.cuts (gap : Gap) : Regex.Gap isWhite '\n' 2 gap.text := by
  refine ⟨isWhite_below gap.blank, ?_⟩
  have hlength : 0 < gap.lines.length := List.length_pos_of_ne_nil gap.ne
  rw [Gap.text, count_below gap.oneLine]
  omega

/-- The gaps and the paragraphs behind them. -/
def pieces (rest : List (Gap × Paragraph)) : List (List Char × List Char) :=
  rest.map fun r => (r.1.text, r.2.text)

theorem pieces_solid (rest : List (Gap × Paragraph)) :
    ∀ r ∈ pieces rest, Regex.Gap isWhite '\n' 2 r.1 ∧ Regex.Solid isWhite '\n' 2 r.2 := by
  intro r hr
  obtain ⟨⟨gap, q⟩, -, rfl⟩ := List.mem_map.mp hr
  exact ⟨gap.cuts, q.solid⟩

theorem snd_pieces (rest : List (Gap × Paragraph)) :
    (pieces rest).map (·.2) = rest.map (·.2.text) := by
  rw [pieces, List.map_map]
  rfl

theorem below_lines (q : Paragraph) : below q.lines = '\n' :: q.text := by
  obtain ⟨line, lines, hlines, htext⟩ := q.exists_lines
  rw [hlines, htext]
  rfl

theorem behind_cons (gap : Gap) (q : Paragraph) (rest : List (Gap × Paragraph)) :
    behind ((gap, q) :: rest) = gap.lines ++ (q.lines ++ behind rest) := by
  rw [behind, List.flatMap_cons, List.append_assoc]
  rfl

theorem below_behind (rest : List (Gap × Paragraph)) :
    below (behind rest) = (pieces rest).flatMap fun r => r.1 ++ r.2 := by
  induction rest with
  | nil => rfl
  | cons r rest ih =>
      obtain ⟨gap, q⟩ := r
      rw [behind_cons, below_append, below_append, ih, below_lines]
      simp [pieces, Gap.text]

/-! ## What is read -/

theorem typed_line {p : Paragraph} {rest : List (Gap × Paragraph)} {line : List Char}
    (h : line ∈ typed p rest) : '\n' ∉ line ∧ line ≠ ['.'] := by
  have hparagraph : ∀ {q : Paragraph}, line ∈ q.lines → '\n' ∉ line ∧ line ≠ ['.'] := by
    intro q hq
    refine ⟨q.not_newline hq, ?_⟩
    rintro rfl
    exact q.notDot hq
  rcases List.mem_append.mp h with h | h
  · exact hparagraph h
  · obtain ⟨⟨gap, q⟩, -, h⟩ := List.mem_flatMap.mp h
    rcases List.mem_append.mp h with h | h
    · refine ⟨gap.oneLine line h, ?_⟩
      rintro rfl
      exact absurd (gap.blank _ h '.' (List.mem_singleton_self _)) (by decide)
    · exact hparagraph h

/-- Where the first line is true, all of it is read. -/
theorem promptLong_of_ne_zero {p : Paragraph} (h : p.lines.head? ≠ some ['0'])
    (rest : List (Gap × Paragraph)) (after : List Char) :
    promptLong (entered (typed p rest) after) = Regex.weave p.text (pieces rest) := by
  obtain ⟨line, lines, hlines, htext⟩ := p.exists_lines
  have htrue : isTrueText line = true := by
    have hzero : line ≠ ['0'] := by
      rintro rfl
      exact h (by rw [hlines]; rfl)
    obtain ⟨c, hc, -⟩ := p.notBlank line (by rw [← Paragraph.lines, hlines]; simp)
    simp [isTrueText, List.ne_nil_of_mem hc, hzero]
  rw [promptLong, loop_entered fun _ => typed_line, typed, hlines, List.cons_append, List.foldl_cons]
  have hfirst : addLine [] line = line := rfl
  rw [hfirst, foldl_addLine htrue, below_append, below_behind, Regex.weave, htext, List.append_assoc]

/-- Where it is `0`, the next line that is not empty goes on behind it. -/
theorem promptLong_of_zero {p : Paragraph} {lines : List (List Char)} (h : p.lines = ['0'] :: lines)
    (rest : List (Gap × Paragraph)) (after : List Char) :
    promptLong (entered (typed p rest) after)
      = '0' :: ['\n'].intercalate ((lines ++ behind rest).dropWhile (· = [])) := by
  rw [promptLong, loop_entered fun _ => typed_line, typed, h, List.cons_append, List.foldl_cons]
  exact foldl_addLine_zero _

/-! ## What is returned -/

/-- The paragraphs in HTML. -/
def html (texts : List (List Char)) : List Char :=
  texts.flatMap fun text => "<p>\n".toList ++ text ++ "\n</p>\n".toList

theorem html_cons (text : List Char) (texts : List (List Char)) :
    html (text :: texts) = "<p>\n".toList ++ text ++ "\n</p>\n".toList ++ html texts :=
  List.flatMap_cons ..

/-- The text between two fields ends one paragraph and starts another. -/
theorem html_eq_intercalate (x : List Char) (xs : List (List Char)) :
    "<p>\n".toList ++ "\n</p>\n<p>\n".toList.intercalate (x :: xs) ++ "\n</p>\n".toList
      = html (x :: xs) := by
  induction xs generalizing x with
  | nil => rw [List.intercalate_singleton, html_cons, html, List.flatMap_nil, List.append_nil]
  | cons y xs ih =>
      have hbetween : "\n</p>\n<p>\n".toList = "\n</p>\n".toList ++ "<p>\n".toList := rfl
      rw [html_cons, ← ih y, List.intercalate_cons_cons, hbetween]
      simp only [List.append_assoc]

theorem promptHtml_of_weave {stdin x : List Char} {rest : List (List Char × List Char)}
    (hlong : promptLong stdin = Regex.weave x rest) (hx : Regex.Solid isWhite '\n' 2 x)
    (hrest : ∀ r ∈ rest, Regex.Gap isWhite '\n' 2 r.1 ∧ Regex.Solid isWhite '\n' 2 r.2) :
    promptHtml stdin = html (x :: rest.map (·.2)) := by
  have hsplit : Regex.split blankLines (promptLong stdin) = x :: rest.map (·.2) := by
    rw [hlong]
    exact Regex.split_weave rfl (by omega) hx hrest
  rw [promptHtml, hsplit]
  exact html_eq_intercalate x _

/-- A line right behind the `0` shows. -/
theorem promptHtml_ne {stdin s : List Char} {c : Char} (hlong : promptLong stdin = '0' :: c :: s)
    (hc : c ≠ '\n') (hmarks : Regex.marks isWhite '\n' (c :: s) < 2) (t : List Char) :
    promptHtml stdin ≠ "<p>\n0\n".toList ++ t := by
  obtain ⟨f, fs, hsplit⟩ : ∃ f fs, Regex.split blankLines (promptLong stdin) = ('0' :: c :: f) :: fs := by
    rw [hlong]
    exact Regex.split_head rfl (by omega) (by decide) hmarks
  rw [promptHtml, hsplit, intercalate_cons]
  intro h
  have hchars : ['<', 'p', '>', '\n', '0', c] = "<p>\n0\n".toList := congrArg (List.take 6) h
  exact hc (by simpa using hchars)

theorem html_of_zero {p : Paragraph} {lines : List (List Char)} (h : p.lines = ['0'] :: lines)
    (texts : List (List Char)) : ∃ t, html (p.text :: texts) = "<p>\n0\n".toList ++ t := by
  obtain ⟨line, lines', hlines, htext⟩ := p.exists_lines
  rw [h, List.cons.injEq] at hlines
  obtain ⟨rfl, rfl⟩ := hlines
  rw [html_cons, htext]
  cases lines with
  | nil => exact ⟨_, rfl⟩
  | cons line lines => exact ⟨_, rfl⟩

/-! ## A paragraph that starts with `0` -/

section Zero

variable {p : Paragraph} {rest : List (Gap × Paragraph)} {after line : List Char}
  {lines next : List (List Char)}

/-- A line with text in it is not empty. -/
theorem dropWhile_line (htext : ∃ c ∈ line, ¬ isWhite c = true) (lines : List (List Char)) :
    (line :: lines).dropWhile (· = []) = line :: lines := by
  obtain ⟨c, hc, -⟩ := htext
  exact List.dropWhile_cons_of_neg (by simpa using List.ne_nil_of_mem hc)

/-- The next line that is not empty has text in it. -/
theorem promptHtml_ne_of_line (hzero : p.lines = ['0'] :: lines)
    (hnext : (lines ++ behind rest).dropWhile (· = []) = line :: next) (hline : '\n' ∉ line)
    (htext : ∃ c ∈ line, ¬ isWhite c = true) (texts : List (List Char)) :
    promptHtml (entered (typed p rest) after) ≠ html (p.text :: texts) := by
  obtain ⟨t, ht⟩ := html_of_zero hzero texts
  have hlong := promptLong_of_zero hzero rest after
  rw [hnext, intercalate_cons] at hlong
  have hnone : Regex.marks isWhite '\n' line = 0 :=
    List.count_eq_zero.mpr fun h => hline ((List.takeWhile_prefix _).subset h)
  have hfew : Regex.marks isWhite '\n' (line ++ next.flatMap (['\n'] ++ ·)) < 2 := by
    rw [Regex.marks_append htext, hnone]
    omega
  obtain ⟨c, s, rfl⟩ := List.exists_cons_of_ne_nil (List.ne_nil_of_mem htext.choose_spec.1)
  rw [ht]
  exact promptHtml_ne hlong (fun hc => hline (hc ▸ List.mem_cons_self ..)) hfew t

/-- What a gap makes without the empty lines it starts with. -/
theorem Gap.left {gap : Gap} (h : gap.lines.dropWhile (· = []) = line :: next) :
    line ≠ [] ∧ '\n' ∉ line ∧ (∀ c ∈ line ++ (below next ++ ['\n']), isWhite c = true)
      ∧ (line ++ (below next ++ ['\n'])).count '\n' = next.length + 1 := by
  have hmem : ∀ l ∈ line :: next, l ∈ gap.lines := fun l hl =>
    (List.dropWhile_suffix _).subset (h ▸ hl)
  have hline : '\n' ∉ line := gap.oneLine line (hmem line (List.mem_cons_self ..))
  refine ⟨?_, hline, ?_, ?_⟩
  · have hfirst := List.head?_dropWhile_not (decide <| · = []) gap.lines
    rw [h] at hfirst
    simpa using hfirst
  · intro c hc
    rcases List.mem_append.mp hc with hc | hc
    · exact gap.blank line (hmem line (List.mem_cons_self ..)) c hc
    · exact isWhite_below (fun l hl => gap.blank l (hmem l (List.mem_cons_of_mem _ hl))) c hc
  · rw [List.count_append, List.count_eq_zero.mpr hline, Nat.zero_add,
      count_below fun l hl => gap.oneLine l (hmem l (List.mem_cons_of_mem _ hl))]

theorem promptLong_zero_gap {gap : Gap} {q : Paragraph} (hzero : p.lines = [['0']])
    (hleft : gap.lines.dropWhile (· = []) = line :: next) :
    promptLong (entered (typed p ((gap, q) :: rest)) after)
      = Regex.weave ['0'] ((line ++ (below next ++ ['\n']), q.text) :: pieces rest) := by
  have hdrop : ([] ++ behind ((gap, q) :: rest)).dropWhile (· = [])
      = line :: (next ++ (q.lines ++ behind rest)) := by
    rw [List.nil_append, behind_cons, List.dropWhile_append, hleft]
    rfl
  have hbelow : (next ++ (q.lines ++ behind rest)).flatMap (['\n'] ++ ·)
      = below next ++ ('\n' :: q.text ++ (pieces rest).flatMap fun r => r.1 ++ r.2) := by
    rw [← below_behind, ← below_lines, ← below_append, ← below_append]
    rfl
  rw [promptLong_of_zero hzero, hdrop, intercalate_cons, hbelow]
  simp [Regex.weave]

/-- The lines that are left go on behind the `0`, and what they make is a gap
again if there are two of them. -/
theorem promptHtml_zero_gap_iff {gap : Gap} {q : Paragraph} (hzero : p.lines = [['0']])
    (hleft : gap.lines.dropWhile (· = []) = line :: next) :
    promptHtml (entered (typed p ((gap, q) :: rest)) after)
        = html (p.text :: q.text :: rest.map (·.2.text)) ↔ 1 ≤ next.length := by
  obtain ⟨hne, hline, hwhite, hcount⟩ := gap.left hleft
  have hlong : promptLong (entered (typed p ((gap, q) :: rest)) after)
      = Regex.weave ['0'] ((line ++ (below next ++ ['\n']), q.text) :: pieces rest) :=
    promptLong_zero_gap hzero hleft
  constructor
  · intro h
    by_contra hnone
    obtain rfl : next = [] := List.eq_nil_of_length_eq_zero (by omega)
    obtain ⟨c, s, rfl⟩ := List.exists_cons_of_ne_nil hne
    have hfew : Regex.marks isWhite '\n'
        ((c :: s ++ (below [] ++ ['\n'])) ++ Regex.weave q.text (pieces rest)) < 2 := by
      rw [(Regex.stretch_append hwhite (q.solid.head_weave _)).1, hcount]
      decide
    obtain ⟨t, ht⟩ := html_of_zero hzero (q.text :: rest.map (·.2.text))
    rw [Regex.weave_cons] at hlong
    rw [ht] at h
    exact promptHtml_ne hlong (fun hc => hline (hc ▸ List.mem_cons_self ..)) hfew t h
  · intro hmany
    have htext : p.text = ['0'] := by rw [← p.intercalate_lines, hzero, List.intercalate_singleton]
    have hpieces : ∀ r ∈ (line ++ (below next ++ ['\n']), q.text) :: pieces rest,
        Regex.Gap isWhite '\n' 2 r.1 ∧ Regex.Solid isWhite '\n' 2 r.2 := by
      intro r hr
      rcases List.mem_cons.mp hr with rfl | hr
      · exact ⟨⟨hwhite, by rw [hcount]; omega⟩, q.solid⟩
      · exact pieces_solid rest r hr
    rw [promptHtml_of_weave hlong (htext ▸ p.solid) hpieces, htext, List.map_cons, snd_pieces]

/-- A first paragraph that is `0` alone. -/
theorem promptHtml_zero_iff (hzero : p.lines = [['0']]) (rest : List (Gap × Paragraph))
    (after : List Char) :
    promptHtml (entered (typed p rest) after) = html (p.text :: rest.map (·.2.text))
      ↔ ∀ r ∈ rest.head?, 2 ≤ (r.1.lines.dropWhile (· = [])).length := by
  cases rest with
  | nil =>
      have hlong : promptLong (entered (typed p []) after) = Regex.weave p.text [] := by
        rw [promptLong_of_zero hzero, ← p.intercalate_lines, hzero]
        rfl
      refine iff_of_true ?_ fun r hr => by cases hr
      rw [promptHtml_of_weave hlong p.solid fun r hr => by cases hr]
      rfl
  | cons r rest =>
      obtain ⟨gap, q⟩ := r
      have hgap : (∀ r ∈ ((gap, q) :: rest).head?, 2 ≤ (r.1.lines.dropWhile (· = [])).length)
          ↔ 2 ≤ (gap.lines.dropWhile (· = [])).length := by simp
      rw [hgap]
      cases hleft : gap.lines.dropWhile (· = []) with
      | nil =>
          obtain ⟨line, lines, hlines, -⟩ := q.exists_lines
          have hline : line ∈ q.lines := by simp [hlines]
          have hnext : ([] ++ behind ((gap, q) :: rest)).dropWhile (· = [])
              = line :: (lines ++ behind rest) := by
            rw [List.nil_append, behind_cons, List.dropWhile_append, hleft, hlines]
            exact dropWhile_line (q.notBlank line hline) _
          refine iff_of_false (promptHtml_ne_of_line hzero hnext (q.not_newline hline)
            (q.notBlank line hline) _) (by simp)
      | cons line next =>
          rw [List.map_cons, promptHtml_zero_gap_iff hzero hleft, List.length_cons]
          omega

end Zero

/-- The paragraphs come back if and only if the first line is not `0`, or the
first paragraph is nothing else and the gap behind it has two lines that
count: empty ones at its start do not. -/
theorem promptHtml_iff (p : Paragraph) (rest : List (Gap × Paragraph)) (after : List Char) :
    promptHtml (entered (typed p rest) after) = html (p.text :: rest.map (·.2.text))
      ↔ p.lines.head? ≠ some ['0']
        ∨ p.text = ['0'] ∧ ∀ r ∈ rest.head?, 2 ≤ (r.1.lines.dropWhile (· = [])).length := by
  obtain ⟨first, lines, hlines, htext⟩ := p.exists_lines
  by_cases hzero : first = ['0']
  · subst hzero
    have hhead : ¬ p.lines.head? ≠ some ['0'] := by simp [hlines]
    rw [or_iff_right hhead]
    cases lines with
    | nil => rw [promptHtml_zero_iff hlines, and_iff_right (show p.text = ['0'] from htext)]
    | cons line lines =>
        have hline : line ∈ p.lines := by simp [hlines]
        have hnext : (line :: lines ++ behind rest).dropWhile (· = [])
            = line :: (lines ++ behind rest) := dropWhile_line (p.notBlank line hline) _
        refine iff_of_false (promptHtml_ne_of_line hlines hnext (p.not_newline hline)
          (p.notBlank line hline) _) ?_
        rintro ⟨h, -⟩
        rw [htext] at h
        cases h
  · have hhead : p.lines.head? ≠ some ['0'] := by simpa [hlines] using hzero
    refine iff_of_true ?_ (.inl hhead)
    rw [promptHtml_of_weave (promptLong_of_ne_zero hhead rest after) p.solid (pieces_solid rest),
      snd_pieces]

/-- A paragraph of two lines, the first of them `0`. -/
def zeroParagraph : Paragraph where
  text := "0\nabc".toList
  ne := by decide
  head := by
    intro c hc
    obtain rfl : '0' = c := Option.some.inj hc
    decide
  last := by
    intro c hc
    obtain rfl : 'c' = c := Option.some.inj hc
    decide
  notBlank := by
    have hlines : "0\nabc".toList.splitOn '\n' = [['0'], ['a', 'b', 'c']] := rfl
    intro line hline
    rw [hlines, List.mem_pair] at hline
    rcases hline with rfl | rfl
    · exact ⟨'0', by simp, by decide⟩
    · exact ⟨'a', by simp, by decide⟩
  notDot := by decide

/-- The newline behind the `0` is lost. -/
theorem promptHtml_zero :
    promptHtml (entered (typed zeroParagraph []) []) ≠ html [zeroParagraph.text] := by
  decide

end Prompt

end Simurga
