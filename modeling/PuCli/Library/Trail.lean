import Mathlib.Data.List.Basic
import Mathlib.Data.List.Infix
import Mathlib.Data.List.Nodup
import Mathlib.Data.List.Perm.Subperm
import Mathlib.Logic.Relation

variable {ι : Type}

inductive Trail (next : ι → Option ι) : ι → List ι → Prop
  | last {i : ι} : next i = none → Trail next i [i]
  | more {i j : ι} {t : List ι} : next i = some j → Trail next j t → Trail next i (i :: t)

namespace Trail

variable {next : ι → Option ι} {i j : ι} {t s : List ι}

theorem head_mem (h : Trail next i t) : i ∈ t := by
  cases h <;> simp

theorem unique (h : Trail next i t) (k : Trail next i s) : t = s := by
  induction h generalizing s with
  | last hn =>
      cases k with
      | last _ => rfl
      | more hm _ => simp [hn] at hm
  | more hn _ ih =>
      cases k with
      | last hm => simp [hn] at hm
      | more hm k =>
          rw [hn] at hm
          obtain rfl := Option.some.inj hm
          rw [ih k]

theorem of_mem (h : Trail next i t) (hj : j ∈ t) : ∃ s, Trail next j s ∧ s <:+ t := by
  induction h with
  | @last i hn =>
      obtain rfl := List.mem_singleton.mp hj
      exact ⟨[j],.last hn,List.suffix_refl _⟩
  | @more i k t hn ht ih =>
      rcases List.mem_cons.mp hj with rfl | hj
      · exact ⟨j :: t,.more hn ht,List.suffix_refl _⟩
      · obtain ⟨s,hs,hsuf⟩ := ih hj
        exact ⟨s,hs,hsuf.trans (List.suffix_cons _ _)⟩

theorem next_mem {k : ι} (h : Trail next i t) (hj : j ∈ t) (hn : next j = some k) : k ∈ t := by
  obtain ⟨s,hs,hsuf⟩ := h.of_mem hj
  cases hs with
  | last hl => simp [hl] at hn
  | more hm hs =>
      rw [hm] at hn
      obtain rfl := Option.some.inj hn
      exact hsuf.subset (List.mem_cons_of_mem _ hs.head_mem)

theorem nodup (h : Trail next i t) : t.Nodup := by
  induction h with
  | last _ => simp
  | @more i j t hn ht ih =>
      refine List.nodup_cons.mpr ⟨?_,ih⟩
      intro hi
      obtain ⟨s,hs,hsuf⟩ := ht.of_mem hi
      have he : s = i :: t := hs.unique (.more hn ht)
      have hl := hsuf.length_le
      rw [he,List.length_cons] at hl
      omega

theorem congr {next' : ι → Option ι} (h : Trail next i t) (hn : ∀ k ∈ t, next k = next' k) :
    Trail next' i t := by
  induction h with
  | @last i hi => exact .last ((hn i (by simp)).symm.trans hi)
  | @more i j t hi _ ih =>
      refine .more ((hn i (by simp)).symm.trans hi) (ih ?_)
      intro k hk
      exact hn k (List.mem_cons_of_mem _ hk)

theorem length_le (h : Trail next i t) {dom : List ι} (hd : t ⊆ dom) :
    t.length ≤ dom.length :=
  (List.subperm_of_subset h.nodup hd).length_le

theorem acyclic (h : Trail next i t) : ¬ Relation.TransGen (fun a b => next a = some b) i i := by
  intro hc
  have loop : ∀ {j}, Relation.TransGen (fun a b => next a = some b) i j →
      ∃ s, Trail next j s ∧ s.length < t.length := by
    intro j hj
    induction hj with
    | single hij =>
        cases h with
        | last hn => simp [hn] at hij
        | more hn ht =>
            rw [hn] at hij
            obtain rfl := Option.some.inj hij
            exact ⟨_,ht,by simp⟩
    | tail _ hjk ih =>
        obtain ⟨s,hs,hl⟩ := ih
        cases hs with
        | last hn => simp [hn] at hjk
        | more hn hs =>
            rw [hn] at hjk
            obtain rfl := Option.some.inj hjk
            exact ⟨_,hs,by simp at hl; omega⟩
  obtain ⟨s,hs,hl⟩ := loop hc
  rw [hs.unique h] at hl
  exact absurd hl (lt_irrefl _)

end Trail
