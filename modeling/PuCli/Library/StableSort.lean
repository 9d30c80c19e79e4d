import Mathlib.Data.List.Sort

variable {α : Type}

namespace StableSort

structure Order (le : α → α → Bool) : Prop where
  trans : ∀ a b c, le a b = true → le b c = true → le a c = true
  total : ∀ a b, (le a b || le b a) = true

variable {le : α → α → Bool} {p : α → Bool} {l : List α}

theorem filter_mergeSort_iff (h : Order le) :
    (l.mergeSort le).filter p = l.filter p ↔ (l.filter p).Pairwise (fun a b => le a b = true) := by
  constructor
  · intro hsame
    rw [← hsame]
    exact (List.pairwise_mergeSort h.trans h.total l).sublist List.filter_sublist
  · intro hsorted
    have hsub : (l.filter p).Sublist (l.mergeSort le) :=
      List.sublist_mergeSort h.trans h.total hsorted List.filter_sublist
    have hfiltered := hsub.filter p
    rw [List.filter_filter] at hfiltered
    simp only [Bool.and_self] at hfiltered
    refine (hfiltered.eq_of_length ?_).symm
    exact ((List.mergeSort_perm l le).filter p).length_eq.symm

-- The sort is stable, so of the least elements the one that stood first comes first.
theorem head?_mergeSort (h : Order le) :
    (l.mergeSort le).head? = l.find? (fun a => l.all (le a)) := by
  have hleast :
      (l.mergeSort le).filter (fun a => l.all (le a)) = l.filter (fun a => l.all (le a)) := by
    refine (filter_mergeSort_iff h).mpr ?_
    refine List.pairwise_iff_forall_sublist.mpr ?_
    intro a b hab
    have ha := List.mem_filter.mp (hab.subset (List.mem_cons_self ..))
    have hb := List.mem_filter.mp (hab.subset (List.mem_cons_of_mem _ (List.mem_cons_self ..)))
    exact List.all_eq_true.mp ha.2 b hb.1
  rw [← List.head?_filter,← hleast]
  have hsorted := List.pairwise_mergeSort h.trans h.total l
  have hmem : ∀ a, a ∈ l.mergeSort le ↔ a ∈ l := fun a => List.mem_mergeSort
  generalize l.mergeSort le = sorted at hsorted hmem
  cases sorted with
  | nil => rfl
  | cons first rest =>
      have hfirst : l.all (le first) = true := by
        refine List.all_eq_true.mpr ?_
        intro b hb
        rcases List.mem_cons.mp ((hmem b).mpr hb) with rfl | hrest
        · simpa using h.total b b
        · exact List.rel_of_pairwise_cons hsorted hrest
      simp only [List.filter_cons,if_pos hfirst,List.head?_cons]

end StableSort
