import Mathlib.Algebra.BigOperators.Group.List.Basic
import Mathlib.Algebra.Ring.Rat

namespace Counts

variable {α σ : Type}

def exact (counts : List Int32) : Int := (counts.map Int32.toInt).sum

def Fits (counts : List Int32) : Prop := -2 ^ 31 ≤ exact counts ∧ exact counts < 2 ^ 31

instance (counts : List Int32) : Decidable (Fits counts) := inferInstanceAs (Decidable (_ ∧ _))

theorem foldl_add (counts : List Int32) (start : Int32) :
    counts.foldl (· + ·) start = Int32.ofInt (start.toInt + exact counts) := by
  induction counts generalizing start with
  | nil => simp [exact]
  | cons count counts ih =>
      have hsplit : exact (count :: counts) = count.toInt + exact counts := List.sum_cons
      rw [List.foldl_cons,ih,hsplit,← Int.add_assoc,Int32.ofInt_add,Int32.ofInt_add,Int32.ofInt_toInt,
        Int32.ofInt_add,Int32.ofInt_toInt,Int32.ofInt_toInt]

theorem toInt_ofInt_eq_iff (n : Int) : (Int32.ofInt n).toInt = n ↔ -2 ^ 31 ≤ n ∧ n < 2 ^ 31 := by
  rw [Int32.toInt_ofInt,Int.bmod_eq_iff (by decide)]
  simp [Int32.size]

theorem toInt_foldl_eq_iff (counts : List Int32) :
    (counts.foldl (· + ·) 0).toInt = exact counts ↔ Fits counts := by
  rw [foldl_add,Int32.toInt_zero,Int.zero_add]
  exact toInt_ofInt_eq_iff _

-- A count that every step of a fold adds to ends as the sum of what was added.
theorem foldl_field (field : σ → Int32) (count : α → Int32) {step : σ → α → σ}
    (h : ∀ s a, field (step s a) = field s + count a) (as : List α) (s : σ) :
    field (as.foldl step s) = (as.map count).foldl (· + ·) (field s) := by
  rw [List.foldl_map]
  exact (List.foldl_hom field (fun s a => (h s a).symm)).symm

theorem toInt_field_eq_iff (field : σ → Int32) (count : α → Int32) {step : σ → α → σ}
    (h : ∀ s a, field (step s a) = field s + count a) (as : List α) {s : σ} (hs : field s = 0) :
    (field (as.foldl step s)).toInt = exact (as.map count) ↔ Fits (as.map count) := by
  rw [foldl_field field count h,hs]
  exact toInt_foldl_eq_iff _

end Counts
