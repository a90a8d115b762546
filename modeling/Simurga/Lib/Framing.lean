import Mathlib.Data.List.Induction
import Mathlib.Data.Nat.Init

/-!
# Frames in a stream

A reader takes frames off a stream of symbols. A `Cutter` says what the
first frame of a text is once it is there whole; `frames` takes off all of
them. In a text that was written frame by frame the frames are found again
(`frames_flatMap`), and where only a beginning of it has come the frames of
that are a beginning of them (`frames_of_isPrefix`).
-/

namespace Framing

variable {α β : Type*}

/-- How the first frame is taken off. It has symbols of its own, and what
comes behind it does not change it. -/
structure Cutter (α β : Type*) where
  cut : List α → Option (β × List α)
  progress : ∀ {s b rest}, cut s = some (b, rest) → rest.length < s.length
  stable : ∀ {s b rest}, cut s = some (b, rest) → ∀ t, cut (s ++ t) = some (b, rest ++ t)

namespace Cutter

variable (c : Cutter α β)

/-- The frames of a text with at most `n` of them, and what is left. -/
def framesUpTo : Nat → List α → List β × List α
  | 0, s => ([], s)
  | n + 1, s =>
      match c.cut s with
      | none => ([], s)
      | some (b, rest) => (b :: (framesUpTo n rest).1, (framesUpTo n rest).2)

/-- The frames of a text and the beginning of the next one. -/
def frames (s : List α) : List β × List α := c.framesUpTo s.length s

variable {c} {s t rest : List α} {b : β}

theorem framesUpTo_of_none (n : Nat) (h : c.cut s = none) : c.framesUpTo n s = ([], s) := by
  cases n with
  | zero => rfl
  | succ n => simp only [framesUpTo, h]

/-- More turns than symbols change nothing. -/
theorem framesUpTo_add (n k : Nat) (h : s.length ≤ n) :
    c.framesUpTo (n + k) s = c.framesUpTo n s := by
  induction n generalizing s with
  | zero =>
      obtain rfl : s = [] := List.eq_nil_of_length_eq_zero (by omega)
      cases hcut : c.cut [] with
      | none => rw [framesUpTo_of_none _ hcut, framesUpTo_of_none _ hcut]
      | some r => exact absurd (c.progress hcut) (by simp)
  | succ n ih =>
      rw [show n + 1 + k = n + k + 1 from by omega]
      cases hcut : c.cut s with
      | none => simp only [framesUpTo, hcut]
      | some r =>
          have := c.progress hcut
          simp only [framesUpTo, hcut, ih (s := r.2) (by omega)]

theorem frames_of_none (h : c.cut s = none) : c.frames s = ([], s) := framesUpTo_of_none _ h

theorem frames_of_some (h : c.cut s = some (b, rest)) :
    c.frames s = (b :: (c.frames rest).1, (c.frames rest).2) := by
  have hlt := c.progress h
  obtain ⟨k, hk⟩ := Nat.exists_eq_add_of_lt hlt
  have hrest : c.framesUpTo (rest.length + k) rest = c.frames rest :=
    framesUpTo_add rest.length k (Nat.le_refl _)
  rw [frames, hk]
  simp only [framesUpTo, h, hrest]

@[simp] theorem frames_nil : c.frames [] = ([], []) := rfl

/-! ## Texts made of frames -/

/-- `encode b` is a text whose one frame is `b`, whatever follows it. -/
def Writes (c : Cutter α β) (encode : β → List α) (b : β) : Prop :=
  ∀ t, c.cut (encode b ++ t) = some (b, t)

theorem frames_flatMap {encode : β → List α} {bs : List β} (h : ∀ b ∈ bs, c.Writes encode b)
    (t : List α) :
    c.frames (bs.flatMap encode ++ t) = (bs ++ (c.frames t).1, (c.frames t).2) := by
  induction bs with
  | nil => rfl
  | cons b bs ih =>
      rw [List.flatMap_cons, List.append_assoc, frames_of_some (h b (List.mem_cons_self ..) _),
        ih fun b hb => h b (List.mem_cons_of_mem _ hb)]
      rfl

/-- A reader who has seen a part of such a text has found a part of its
frames, and what is left is the beginning of the next ones. -/
theorem frames_of_isPrefix {encode : β → List α} {bs : List β} (h : ∀ b ∈ bs, c.Writes encode b)
    (hs : s <+: bs.flatMap encode) :
    ∃ done todo, bs = done ++ todo ∧ (c.frames s).1 = done
      ∧ s = done.flatMap encode ++ (c.frames s).2 ∧ (c.frames s).2 <+: todo.flatMap encode := by
  induction bs generalizing s with
  | nil =>
      obtain rfl : s = [] := List.prefix_nil.mp hs
      exact ⟨[], [], rfl, rfl, rfl, List.prefix_refl _⟩
  | cons b bs ih =>
      have hb := h b (List.mem_cons_self ..)
      rw [List.flatMap_cons] at hs
      obtain ⟨rest, hrest⟩ := hs
      rcases List.append_eq_append_iff.mp hrest with ⟨mid, hmid, -⟩ | ⟨mid, rfl, hmid⟩
      · -- the first frame has not come through yet, or just now
        cases hcut : c.cut s with
        | none =>
            refine ⟨[], b :: bs, rfl, ?_, ?_, ?_⟩
            · rw [frames_of_none hcut]
            · rw [frames_of_none hcut]; rfl
            · rw [frames_of_none hcut, List.flatMap_cons]
              exact ⟨mid ++ bs.flatMap encode, by rw [← List.append_assoc, ← hmid]⟩
        | some r =>
            have hwhole := c.stable hcut mid
            rw [← hmid] at hwhole
            have hnil := hb []
            rw [List.append_nil, hwhole, Option.some.injEq, Prod.mk.injEq,
              List.append_eq_nil_iff] at hnil
            obtain ⟨hr, hr', rfl⟩ := hnil
            rw [List.append_nil] at hmid
            subst hmid
            refine ⟨[b], bs, rfl, ?_, ?_, ?_⟩
            · rw [frames_of_some hcut, hr', hr]; rfl
            · rw [frames_of_some hcut, hr']; simp
            · rw [frames_of_some hcut, hr']; simp
      · obtain ⟨done, todo, rfl, hdone, hs, htodo⟩ :=
          ih (s := mid) (fun b hb => h b (List.mem_cons_of_mem _ hb)) ⟨rest, hmid.symm⟩
        refine ⟨b :: done, todo, rfl, ?_, ?_, ?_⟩
        · rw [frames_of_some (hb mid), hdone]
        · rw [frames_of_some (hb mid), List.flatMap_cons, List.append_assoc, ← hs]
        · rw [frames_of_some (hb mid)]
          exact htodo

end Cutter

end Framing
