import Mathlib.Data.List.Infix
import Mathlib.Tactic.Common

variable {α : Type}

namespace Window

-- The newest part of a log that is left once the oldest entries are dropped while it is full.
def trim (full : List α → Bool) : List α → List α
  | [] => []
  | x :: xs => if full (x :: xs) then trim full xs else x :: xs

variable {full : List α → Bool} {xs ys : List α}

theorem trim_suffix (full : List α → Bool) (xs : List α) : trim full xs <:+ xs := by
  induction xs with
  | nil => exact List.suffix_refl []
  | cons x xs ih =>
      rw [trim]
      split
      · exact ih.trans (List.suffix_cons x xs)
      · exact List.suffix_refl _

theorem trim_fits (full : List α → Bool) (xs : List α) :
    trim full xs = [] ∨ full (trim full xs) = false := by
  induction xs with
  | nil => exact .inl rfl
  | cons x xs ih =>
      rw [trim]
      split
      · exact ih
      · next h => exact .inr (by simpa using h)

theorem suffix_trim (hs : ys <:+ xs) (hy : full ys = false) : ys <:+ trim full xs := by
  induction xs with
  | nil => exact hs
  | cons x xs ih =>
      rw [trim]
      split
      · next h =>
          rcases List.suffix_cons_iff.mp hs with rfl | hs
          · rw [hy] at h
            cases h
          · exact ih hs
      · exact hs

theorem trim_concat (xs : List α) {x : α} (h : full [x] = false) :
    ∃ kept, trim full (xs ++ [x]) = kept ++ [x] := by
  obtain ⟨kept,hkept⟩ := suffix_trim (List.suffix_append xs [x]) h
  exact ⟨kept,hkept.symm⟩

end Window
