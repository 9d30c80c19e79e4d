import Mathlib.Logic.Relation
import Mathlib.Order.Monotone.Basic
import Mathlib.Order.Preorder.Finite
import Mathlib.Order.WellFounded

-- Where a relation leads to only finitely many things, a walk along it can go on for ever only by
-- coming back to where it was.
namespace Loops

variable {α : Type} {leads : α → α → Prop} {a b : α}

def MeetsLoop (leads : α → α → Prop) (a : α) : Prop :=
  ∃ b, Relation.ReflTransGen leads a b ∧ Relation.TransGen leads b b

theorem MeetsLoop.next (h : MeetsLoop leads a) : ∃ b, leads a b ∧ MeetsLoop leads b := by
  obtain ⟨c,hreach,hloop⟩ := h
  rcases Relation.ReflTransGen.cases_head hreach with rfl | ⟨b,hab,hbc⟩
  · obtain ⟨b,hab,hback⟩ := Relation.TransGen.head'_iff.mp hloop
    exact ⟨b,hab,a,hback,hloop⟩
  · exact ⟨b,hab,c,hbc,hloop⟩

theorem not_meetsLoop_of_acc (h : Acc (fun b a => leads a b) a) : ¬ MeetsLoop leads a := by
  induction h with
  | intro a _ ih =>
      intro hloop
      obtain ⟨b,hab,hb⟩ := hloop.next
      exact ih b hab hb

theorem meetsLoop_of_walk (hfin : {b | ∃ a, leads a b}.Finite) {walk : ℕ → α}
    (h : ∀ n, leads (walk n) (walk (n + 1))) : MeetsLoop leads (walk 0) := by
  have hmem : ∀ n, walk (n + 1) ∈ {b | ∃ a, leads a b} := fun n => ⟨walk n,h n⟩
  obtain ⟨i,j,hij,heq⟩ := hfin.exists_lt_map_eq_of_forall_mem hmem
  have hreach : Relation.ReflTransGen leads (walk 0) (walk (i + 1)) :=
    Nat.rel_of_forall_rel_succ_of_le (Relation.ReflTransGen leads)
      (fun n => Relation.ReflTransGen.single (h n)) (Nat.zero_le _)
  have hloop : Relation.TransGen leads (walk (i + 1)) (walk (j + 1)) :=
    Nat.rel_of_forall_rel_succ_of_lt (Relation.TransGen leads)
      (fun n => Relation.TransGen.single (h n)) (Nat.succ_lt_succ hij)
  exact ⟨walk (i + 1),hreach,heq ▸ hloop⟩

theorem acc_iff_not_meetsLoop (hfin : {b | ∃ a, leads a b}.Finite) :
    Acc (fun b a => leads a b) a ↔ ¬ MeetsLoop leads a := by
  refine ⟨not_meetsLoop_of_acc,fun h => ?_⟩
  by_contra hacc
  obtain ⟨walk,rfl,hwalk⟩ := not_acc_iff_exists_descending_chain.mp hacc
  exact h (meetsLoop_of_walk hfin hwalk)

end Loops
