import Mathlib.Tactic.Common

variable {κ α : Type}

inductive Write (κ α : Type) where
  | put (key : κ) (value : α)
  | wipe

namespace Write

variable [DecidableEq κ] {key other : κ} {value : α} {w : Write κ α} {ws : List (Write κ α)}

-- What a write tells of a key: nothing, that it is gone, or the value it has.
def tells (key : κ) : Write κ α → Option (Option α)
  | .put k value => if k = key then some (some value) else none
  | .wipe => some none

def last (key : κ) (ws : List (Write κ α)) : Option α := (ws.reverse.findSome? (tells key)).join

@[simp] theorem last_nil : last key ([] : List (Write κ α)) = none := rfl

theorem last_concat : last key (ws ++ [w]) = (tells key w).getD (last key ws) := by
  unfold last
  rw [List.reverse_concat,List.findSome?_cons]
  cases tells key w <;> rfl

@[simp] theorem last_concat_put : last key (ws ++ [.put key value]) = some value := by
  rw [last_concat,tells,if_pos rfl,Option.getD_some]

theorem last_concat_put_ne (h : key ≠ other) : last other (ws ++ [.put key value]) = last other ws := by
  rw [last_concat,tells,if_neg h,Option.getD_none]

@[simp] theorem last_concat_wipe : last key (ws ++ [.wipe]) = none := by
  rw [last_concat,tells,Option.getD_some]

end Write
