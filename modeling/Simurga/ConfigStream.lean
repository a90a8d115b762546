import Simurga.ConfigFile
import Simurga.Lib.Fuel

/-!
# Reading a configuration to its end

The loop of the constructor of `DirConfig`, turn by turn on a stream with
its three state bits. The condition of the loop reads `eofbit` alone. A
stream that is not good any more and has no `eofbit` never gets one, and
neither does one whose reads fail before the end of the file, so the loop
ends exactly for the others (`loop_halts_iff`), and has then read the lines
of the file.
-/

namespace Simurga

/-! ## The stream -/

/-- What comes behind the last byte that can be read. -/
inductive ReadEnd where
  | endOfFile | failure
deriving DecidableEq

/-- `std::ifstream`: what its reads still deliver, what comes behind that, and
its state. -/
structure InputStream where
  rest : Bytes
  ending : ReadEnd
  eofbit : Bool := false
  failbit : Bool := false
  badbit : Bool := false

namespace InputStream

def good (input : InputStream) : Bool := !input.eofbit && !input.failbit && !input.badbit

/-- `std::getline` into an empty string. -/
def getline (input : InputStream) : Bytes × InputStream :=
  if input.good then
    match Simurga.getline input.rest with
    | (line, some rest) => (line, { input with rest := rest })
    | (line, none) =>
        let failbit := decide (line = [])
        match input.ending with
        | .endOfFile => (line, { input with rest := [], eofbit := true, failbit := failbit })
        | .failure => (line, { input with rest := [], badbit := true, failbit := failbit })
  else ([], { input with failbit := true })

/-- The reads get to the end of the file, or have got there. -/
def Ends (input : InputStream) : Prop :=
  input.eofbit = true ∨ input.good = true ∧ input.ending = .endOfFile

end InputStream

/-! ## The constructor -/

namespace DirConfig

/-- The data after a line. -/
def set (data : Bytes → Option Bytes) (line : Bytes) : Bytes → Option Bytes :=
  match parseLine line with
  | some (key, value) => Function.update data key (some value)
  | none => data

/-- The `while (!in.eof())`. -/
def loop : ℕ → InputStream → (Bytes → Option Bytes) → Option (Bytes → Option Bytes)
  | 0, _, _ => none
  | fuel + 1, input, data =>
      if input.eofbit then some data
      else loop fuel input.getline.2 (set data input.getline.1)

/-- The constructor, for a given number of turns of its loop. -/
def construct (fuel : ℕ) (input : InputStream) : Option DirConfig :=
  if input.good then (loop fuel input fun _ => none).map fun data => { exists_ := true, data := data }
  else some { exists_ := false, data := fun _ => none }

/-! ## Where the loop ends -/

section Loop

variable {input : InputStream}

theorem loop_eof (heof : input.eofbit = true) (data : Bytes → Option Bytes) :
    Fuel.Settles (fun fuel => loop fuel input data) (some data) := by
  refine ⟨1, fun fuel hfuel => ?_⟩
  obtain ⟨fuel, rfl⟩ : ∃ n, fuel = n + 1 := ⟨fuel - 1, by omega⟩
  show loop (fuel + 1) input data = some data
  rw [loop, if_pos heof]

/-- On a stream that gets to the end of the file the loop reads its lines. -/
theorem loop_lines (hgood : input.good = true) (hending : input.ending = .endOfFile)
    (data : Bytes → Option Bytes) :
    Fuel.Settles (fun fuel => loop fuel input data) (some ((lines input.rest).foldl set data)) := by
  -- one turn for each line, and one to see the end
  generalize hlines : lines input.rest = ls
  induction ls generalizing input data with
  | nil =>
      rw [lines_eq_getline] at hlines
      cases hlines
  | cons l ls ih =>
      rw [lines_eq_getline] at hlines
      obtain ⟨hl, hls⟩ := List.cons.inj hlines
      have heof : input.eofbit = false := by
        unfold InputStream.good at hgood
        cases h : input.eofbit
        · rfl
        · simp [h] at hgood
      have hturn : ∀ fuel, loop (fuel + 1) input data = loop fuel input.getline.2 (set data l) := by
        intro fuel
        have hline : input.getline.1 = l := by
          rw [InputStream.getline, if_pos hgood, ← hl]
          rcases Simurga.getline input.rest with ⟨line, rest | _⟩
          · rw [hending]
          · rfl
        rw [loop, heof, if_neg Bool.false_ne_true, hline]
      rw [Fuel.settles_succ hturn, List.foldl_cons]
      cases hrest : (Simurga.getline input.rest).2 with
      | some rest =>
          have hnext : input.getline.2 = { input with rest := rest } := by
            rw [InputStream.getline, if_pos hgood]
            rcases hget : Simurga.getline input.rest with ⟨line, rest'⟩
            rw [hget] at hrest
            cases hrest
            rfl
          rw [hrest] at hls
          rw [hnext]
          have hnextGood : ({ input with rest := rest } : InputStream).good = true := hgood
          exact ih hnextGood hending (set data l) hls
      | none =>
          have hnext : input.getline.2.eofbit = true := by
            rw [InputStream.getline, if_pos hgood]
            rcases hget : Simurga.getline input.rest with ⟨line, rest'⟩
            rw [hget] at hrest
            cases hrest
            dsimp only
            rw [hending]
          rw [hrest] at hls
          cases hls
          exact loop_eof hnext (set data l)

/-- A line read from a stream that never ends leaves one that never ends. -/
theorem not_ends_getline (h : ¬ input.Ends) : ¬ input.getline.2.Ends := by
  rw [InputStream.Ends, not_or, not_and] at h
  obtain ⟨heof, hgood⟩ := h
  rw [InputStream.getline]
  by_cases hg : input.good = true
  · have hfail : input.ending = .failure := by
      cases hending : input.ending with
      | endOfFile => exact absurd hending (hgood hg)
      | failure => rfl
    rw [if_pos hg]
    rcases Simurga.getline input.rest with ⟨line, rest | _⟩
    · simp [InputStream.Ends, InputStream.good, hfail, heof]
    · simp [InputStream.Ends, hfail, heof]
  · rw [if_neg hg]
    simp [InputStream.Ends, InputStream.good, heof]

theorem loop_of_not_ends (h : ¬ input.Ends) (fuel : ℕ) (data : Bytes → Option Bytes) :
    loop fuel input data = none := by
  induction fuel generalizing input data with
  | zero => rfl
  | succ fuel ih =>
      have heof : ¬ input.eofbit = true := fun heof => h (Or.inl heof)
      rw [loop, if_neg heof]
      exact ih (not_ends_getline h) _

/-- In every state of the stream the loop ends exactly if there is an end to
be seen. -/
theorem loop_halts_iff (data : Bytes → Option Bytes) :
    Fuel.Halts none (fun fuel => loop fuel input data) ↔ input.Ends := by
  constructor
  · intro h
    by_contra hends
    exact Fuel.not_halts (fun fuel => loop_of_not_ends hends fuel data) h
  · rintro (heof | ⟨hgood, hending⟩)
    · exact ⟨_, Option.some_ne_none _, loop_eof heof data⟩
    · exact ⟨_, Option.some_ne_none _, loop_lines hgood hending data⟩

end Loop

/-- For a file that could be opened the constructor ends exactly if its reads
get to the end of the file; it has then read the file. -/
theorem construct_halts_iff (content : Bytes) (ending : ReadEnd) :
    (Fuel.Halts none (fun fuel => construct fuel { rest := content, ending := ending })
      ↔ ending = .endOfFile)
    ∧ (ending = .endOfFile →
      Fuel.Settles (fun fuel => construct fuel { rest := content, ending := ending })
        (some (load (some content)))) := by
  have hgood : ({ rest := content, ending := ending } : InputStream).good = true := rfl
  have hloop : ∀ fuel, construct fuel { rest := content, ending := ending }
      = (loop fuel { rest := content, ending := ending } fun _ => none).map
          fun data => { exists_ := true, data := data } := fun fuel => if_pos hgood
  have hread : ending = .endOfFile →
      Fuel.Settles (fun fuel => construct fuel { rest := content, ending := ending })
        (some (load (some content))) := by
    intro hending
    obtain ⟨n, hn⟩ := loop_lines hgood hending fun _ => none
    refine ⟨n, fun fuel hfuel => (hloop fuel).trans ?_⟩
    dsimp only at hn
    rw [hn fuel hfuel]
    rfl
  refine ⟨⟨fun h => ?_, fun hending => ⟨_, Option.some_ne_none _, hread hending⟩⟩, hread⟩
  by_contra hending
  have hends : ¬ ({ rest := content, ending := ending } : InputStream).Ends := by
    simp [InputStream.Ends, hending]
  refine Fuel.not_halts (fun fuel => ?_) h
  rw [hloop, loop_of_not_ends hends]
  rfl

/-- A directory can be opened, and its first read fails. -/
theorem construct_not_halts :
    ({ rest := [], ending := .failure } : InputStream).good = true
    ∧ ({ rest := [], ending := .failure } : InputStream).getline.2.eofbit = false
    ∧ ¬ Fuel.Halts none (fun fuel => construct fuel { rest := [], ending := .failure }) :=
  ⟨rfl, rfl, fun h => nomatch (construct_halts_iff [] .failure).1.mp h⟩

end DirConfig

end Simurga
