import Mathlib.Order.Defs.Unbundled
import Mathlib.Tactic.Common

variable {ε σ α β : Type}

-- A computation that writes its state in place and may throw later: what it wrote stays.
abbrev InPlace (ε σ α : Type) := ExceptT ε (StateM σ) α

namespace InPlace

variable {m : InPlace ε σ α} {k : α → InPlace ε σ β} {s s' : σ} {a : α} {e : ε}

def ran (m : InPlace ε σ α) (s : σ) : Except ε α × σ := (ExceptT.run m).run s

def settled (s : σ) : Except ε (α × σ) → Except ε α × σ
  | .ok (a, s') => (.ok a, s')
  | .error e => (.error e, s)

theorem ran_get : ran (get : InPlace ε σ σ) s = (.ok s, s) := rfl

theorem ran_pure (a : α) (s : σ) : ran (pure a : InPlace ε σ α) s = (.ok a, s) := rfl

theorem ran_throw (e : ε) (s : σ) : ran (throw e : InPlace ε σ α) s = (.error e, s) := rfl

theorem ran_modify (f : σ → σ) (s : σ) : ran (modify f : InPlace ε σ PUnit) s = (.ok ⟨⟩, f s) := rfl

def resumed (k : α → InPlace ε σ β) : Except ε α × σ → Except ε β × σ
  | (.ok a, s) => ran (k a) s
  | (.error e, s) => (.error e, s)

theorem ran_bind (m : InPlace ε σ α) (k : α → InPlace ε σ β) (s : σ) :
    ran (m >>= k) s = resumed k (ran m s) := by
  unfold ran resumed
  simp only [ExceptT.run_bind,StateT.run_bind]
  generalize (ExceptT.run m).run s = p
  obtain ⟨r,t⟩ := p
  cases r <;> rfl

theorem ran_bind_congr (m : InPlace ε σ α) {k k' : α → InPlace ε σ β}
    (h : ∀ a s, ran (k a) s = ran (k' a) s) (s : σ) : ran (m >>= k) s = ran (m >>= k') s := by
  rw [ran_bind,ran_bind]
  obtain ⟨r,t⟩ := ran m s
  cases r with
  | error e => rfl
  | ok a => exact h a t

theorem ran_bind_inv {P : σ → Prop} (hm : P (ran m s).2)
    (hk : ∀ a s', P s' → P (ran (k a) s').2) : P (ran (m >>= k) s).2 := by
  rw [ran_bind]
  revert hm
  obtain ⟨r,t⟩ := ran m s
  intro hm
  cases r with
  | error e => exact hm
  | ok a => exact hk a t hm

theorem ran_bind_pure (a : α) (k : α → InPlace ε σ β) (s : σ) :
    ran (pure a >>= k) s = ran (k a) s := rfl

theorem ran_bind_modify (f : σ → σ) (k : PUnit → InPlace ε σ β) (s : σ) :
    ran (modify f >>= k) s = ran (k ⟨⟩) (f s) := rfl

theorem ran_bind_get (k : σ → InPlace ε σ β) (s : σ) : ran (get >>= k) s = ran (k s) s := rfl

-- What a computation may do to its state, told as one relation between the two ends.
def Within (R : σ → σ → Prop) (m : InPlace ε σ α) : Prop := ∀ s, R s (ran m s).2

section Within

variable {R : σ → σ → Prop} [IsPreorder σ R]

theorem within_pure (a : α) : Within R (pure a : InPlace ε σ α) := fun s => Std.Refl.refl s

theorem within_throw (e : ε) : Within R (throw e : InPlace ε σ α) := fun s => Std.Refl.refl s

theorem within_get : Within R (get : InPlace ε σ σ) := fun s => Std.Refl.refl s

theorem within_bind (hm : Within R m) (hk : ∀ a, Within R (k a)) : Within R (m >>= k) := by
  intro s
  refine ran_bind_inv (P := R s) (hm s) ?_
  intro a s' hs
  exact IsTrans.trans _ _ _ hs (hk a s')

end Within

theorem ran_bind_ok (h : ran m s = (.ok a, s')) : ran (m >>= k) s = ran (k a) s' := by
  rw [ran_bind,h,resumed]

theorem ran_bind_error (h : ran m s = (.error e, s')) : ran (m >>= k) s = (.error e, s') := by
  rw [ran_bind,h,resumed]

end InPlace
