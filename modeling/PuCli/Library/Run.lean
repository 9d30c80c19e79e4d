import Mathlib.Tactic.Common

variable {σ ο : Type}

namespace Run

def visited (step : σ → ο → σ) : σ → List ο → List σ
  | s, [] => [s]
  | s, o :: os => s :: visited step (step s o) os

def Along (step : σ → ο → σ) (P : σ → ο → Prop) : σ → List ο → Prop
  | _, [] => True
  | s, o :: os => P s o ∧ Along step P (step s o) os

variable {step : σ → ο → σ} {inv good : σ → Prop} {fits keeps : σ → ο → Prop} {s : σ}

instance instDecidableAlong [∀ s o, Decidable (fits s o)] : ∀ s os, Decidable (Along step fits s os)
  | _, [] => .isTrue trivial
  | s, o :: os =>
      have : Decidable (Along step fits (step s o) os) := instDecidableAlong (step s o) os
      inferInstanceAs (Decidable (fits s o ∧ Along step fits (step s o) os))

theorem start_mem_visited (step : σ → ο → σ) (s : σ) (os : List ο) : s ∈ visited step s os := by
  cases os <;> simp [visited]

theorem end_mem_visited (step : σ → ο → σ) (s : σ) (os : List ο) :
    os.foldl step s ∈ visited step s os := by
  induction os generalizing s with
  | nil => exact List.mem_singleton.mpr rfl
  | cons o os ih => exact List.mem_cons_of_mem _ (ih (step s o))

-- Each step of the first machine is answered by one block of steps of the second.
theorem simulated {τ ο' : Type} {step : σ → ο → σ} {step' : τ → ο' → τ} {R : σ → τ → Prop}
    {P : ο → List ο' → Prop}
    (hsim : ∀ s t o, R s t → ∃ block, P o block ∧ R (step s o) (block.foldl step' t)) {s : σ} {t : τ}
    (h : R s t) (os : List ο) :
    ∃ blocks, List.Forall₂ P os blocks ∧
      ∀ n, R ((os.take n).foldl step s) ((blocks.take n).flatten.foldl step' t) := by
  induction os generalizing s t with
  | nil =>
      refine ⟨[],.nil,fun n => ?_⟩
      simpa using h
  | cons o os ih =>
      obtain ⟨block,hblock,hnext⟩ := hsim s t o h
      obtain ⟨blocks,hblocks,hrest⟩ := ih hnext
      refine ⟨block :: blocks,.cons hblock hblocks,fun n => ?_⟩
      cases n with
      | zero => exact h
      | succ n =>
          rw [List.take_succ_cons,List.take_succ_cons,List.foldl_cons,List.flatten_cons,
            List.foldl_append]
          exact hrest n

theorem visited_append (os : List ο) (o : ο) :
    visited step s (os ++ [o]) = visited step s os ++ [step (os.foldl step s) o] := by
  induction os generalizing s with
  | nil => rfl
  | cons first os ih => rw [List.cons_append,visited,visited,ih,List.cons_append,List.foldl_cons]

theorem along_append {P : σ → ο → Prop} (os : List ο) (o : ο) :
    Along step P s (os ++ [o]) ↔ Along step P s os ∧ P (os.foldl step s) o := by
  induction os generalizing s with
  | nil => simp [Along]
  | cons first os ih =>
      rw [List.cons_append,Along,Along,ih,List.foldl_cons]
      exact and_assoc.symm

theorem along_true (s : σ) (os : List ο) : Along step (fun _ _ => True) s os := by
  induction os generalizing s with
  | nil => trivial
  | cons o os ih => exact ⟨trivial,ih _⟩

theorem along_and {P Q : σ → ο → Prop} {os : List ο} :
    Along step (fun s o => P s o ∧ Q s o) s os ↔ Along step P s os ∧ Along step Q s os := by
  induction os generalizing s with
  | nil => simp [Along]
  | cons o os ih =>
      rw [Along,Along,Along,ih]
      tauto

theorem along_iff {P Q : σ → ο → Prop} {os : List ο}
    (hinv : ∀ s o, inv s → fits s o → inv (step s o))
    (h : ∀ s o, inv s → fits s o → (P s o ↔ Q s o)) (hs : inv s) (hf : Along step fits s os) :
    Along step P s os ↔ Along step Q s os := by
  induction os generalizing s with
  | nil => exact Iff.rfl
  | cons o os ih => exact and_congr (h s o hs hf.1) (ih (hinv s o hs hf.1) hf.2)

theorem visited_good_iff {os : List ο} (hinv : ∀ s o, inv s → fits s o → inv (step s o))
    (hgood : ∀ s o, inv s → fits s o → good s → (good (step s o) ↔ keeps s o))
    (hs : inv s) (hg : good s) (hf : Along step fits s os) :
    (∀ t ∈ visited step s os, good t) ↔ Along step keeps s os := by
  induction os generalizing s with
  | nil =>
      constructor
      · intro _
        trivial
      · intro _ t ht
        rwa [List.mem_singleton.mp ht]
  | cons o os ih =>
      have hi := hinv s o hs hf.1
      have hk := hgood s o hs hf.1 hg
      constructor
      · intro h
        have hnext : good (step s o) :=
          h _ (List.mem_cons_of_mem _ (start_mem_visited step (step s o) os))
        refine ⟨hk.mp hnext,(ih hi hnext hf.2).mp ?_⟩
        intro t ht
        exact h t (List.mem_cons_of_mem _ ht)
      · rintro ⟨hko,hrest⟩ t ht
        have hnext := hk.mpr hko
        rcases List.mem_cons.mp ht with rfl | ht
        · exact hg
        · exact (ih hi hnext hf.2).mpr hrest t ht

theorem end_good_iff {os : List ο} (hinv : ∀ s o, inv s → fits s o → inv (step s o))
    (hgood : ∀ s o, inv s → fits s o → (good (step s o) ↔ good s ∧ keeps s o))
    (hs : inv s) (hf : Along step fits s os) :
    good (os.foldl step s) ↔ good s ∧ Along step keeps s os := by
  induction os generalizing s with
  | nil => simp [Along]
  | cons o os ih =>
      rw [List.foldl_cons,ih (hinv s o hs hf.1) hf.2,hgood s o hs hf.1,and_assoc]
      rfl

theorem end_inv {os : List ο} (hinv : ∀ s o, inv s → fits s o → inv (step s o)) (hs : inv s)
    (hf : Along step fits s os) : inv (os.foldl step s) := by
  induction os generalizing s with
  | nil => exact hs
  | cons o os ih => exact ih (hinv s o hs hf.1) hf.2

theorem visited_inv {os : List ο} (hinv : ∀ s o, inv s → fits s o → inv (step s o)) (hs : inv s)
    (hf : Along step fits s os) : ∀ t ∈ visited step s os, inv t := by
  induction os generalizing s with
  | nil =>
      intro t ht
      rwa [List.mem_singleton.mp ht]
  | cons o os ih =>
      intro t ht
      rcases List.mem_cons.mp ht with rfl | ht
      · exact hs
      · exact ih (hinv s o hs hf.1) hf.2 t ht

theorem along_forall {P : ο → Prop} {os : List ο} :
    Along step (fun _ o => P o) s os ↔ ∀ o ∈ os, P o := by
  induction os generalizing s with
  | nil => simp [Along]
  | cons o os ih => rw [Along,ih,List.forall_mem_cons]

theorem along_of_forall {P : ο → Prop} {os : List ο} (h : ∀ o ∈ os, P o) :
    Along step (fun _ o => P o) s os := along_forall.mpr h

end Run
