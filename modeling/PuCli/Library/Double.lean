import Mathlib.Algebra.Group.Nat.Defs
import Mathlib.Data.Rat.Defs
import Mathlib.Algebra.Order.Ring.Unbundled.Rat
import Mathlib.Tactic.Common

-- A double as sums and comparisons see it: a finite one is the rational it stands for, and the
-- sign of zero is not told.
inductive Double where
  | finite (q : Rat)
  | infinite (negative : Bool)
  | nan
  deriving DecidableEq

namespace Double

instance (n : Nat) : OfNat Double n := ⟨.finite n⟩

instance : Inhabited Double := ⟨.finite 0⟩

def isFinite : Double → Bool
  | .finite _ => true
  | .infinite _ => false
  | .nan => false

@[simp] theorem isFinite_finite (q : Rat) : (Double.finite q).isFinite = true := rfl

-- From here on the nearest double is an infinity: the largest finite one and half a step.
def kOverflow : Nat := 2 ^ 1024 - 2 ^ 970

-- The low bits that rounding takes are kept.
def ofExact (q : Rat) : Double :=
  if q < kOverflow then if -kOverflow < q then .finite q else .infinite true else .infinite false

def add : Double → Double → Double
  | .finite p, .finite q => ofExact (p + q)
  | .finite _, y => y
  | x, .finite _ => x
  | .infinite a, .infinite b => if a = b then .infinite a else .nan
  | _, _ => .nan

instance : Add Double := ⟨add⟩

-- A comparison with what is not a number is false whichever way it is asked.
def lt : Double → Double → Bool
  | .finite p, .finite q => decide (p < q)
  | .finite _, .infinite negative => !negative
  | .infinite negative, .finite _ => negative
  | .infinite a, .infinite b => a && !b
  | _, _ => false

instance : LT Double := ⟨fun x y => lt x y = true⟩

instance (x y : Double) : Decidable (x < y) := inferInstanceAs (Decidable (lt x y = true))

@[simp] theorem finite_lt (p q : Rat) : Double.finite p < .finite q ↔ p < q := decide_eq_true_iff

theorem finite_lt_ofNat (i : Int) (n : Nat) :
    (Double.finite i < OfNat.ofNat n ↔ i < n) ∧ (OfNat.ofNat n < Double.finite i ↔ n < i) := by
  constructor
  · exact (finite_lt _ _).trans (by exact_mod_cast Iff.rfl)
  · exact (finite_lt _ _).trans (by exact_mod_cast Iff.rfl)

-- The numbers added from the first on, as a loop that starts with it adds them.
def sum : List Double → Double
  | [] => 0
  | x :: xs => xs.foldl (· + ·) x

@[simp] theorem sum_singleton (x : Double) : sum [x] = x := rfl

theorem sum_concat {xs : List Double} (h : xs ≠ []) (y : Double) : sum (xs ++ [y]) = sum xs + y := by
  cases xs with
  | nil => exact absurd rfl h
  | cons x xs => simp [sum]

end Double
