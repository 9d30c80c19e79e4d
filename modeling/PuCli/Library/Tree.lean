import Mathlib.Data.List.Nodup
import Std.Data.ExtTreeMap
import Std.Data.ExtTreeMap.Lemmas

open Std

namespace Tree

variable {κ β ε : Type} {cmp : κ → κ → Ordering} [TransCmp cmp] [LawfulEqCmp cmp]

theorem forall_mem_toList (P : κ → β → Prop) (t : ExtTreeMap κ β cmp) :
    (∀ e ∈ t.toList, P e.1 e.2) ↔ ∀ k v, t[k]? = some v → P k v := by
  constructor
  · intro h k v hv
    exact h (k, v) (ExtTreeMap.mem_toList_iff_getElem?_eq_some.mpr hv)
  · intro h e he
    exact h e.1 e.2 (ExtTreeMap.mem_toList_iff_getElem?_eq_some.mp he)

theorem foldlM_insert_get {f : ExtTreeMap κ β cmp → ε → Option (ExtTreeMap κ β cmp)}
    {enc : κ × β → ε} {es : List (κ × β)} {m : ExtTreeMap κ β cmp}
    (hf : ∀ e ∈ es, ∀ m, m[e.1]? = none → f m (enc e) = some (m.insert e.1 e.2))
    (hd : (es.map Prod.fst).Nodup) (hm : ∀ e ∈ es, m[e.1]? = none) :
    ∃ m', (es.map enc).foldlM f m = some m' ∧
      ∀ k v, m'[k]? = some v ↔ (k, v) ∈ es ∨ m[k]? = some v := by
  induction es generalizing m with
  | nil => exact ⟨m,rfl,by simp⟩
  | cons e es ih =>
      simp only [List.map_cons,List.nodup_cons] at hd
      have hne : ∀ {x : κ × β}, x ∈ es → ¬ e.1 = x.1 :=
        fun hx he => hd.1 (he ▸ List.mem_map_of_mem hx)
      have hrest : ∀ x ∈ es, (m.insert e.1 e.2)[x.1]? = none := by
        intro x hx
        have hex : ¬ cmp e.1 x.1 = .eq := mt LawfulEqCmp.compare_eq_iff_eq.mp (hne hx)
        rw [ExtTreeMap.getElem?_insert,if_neg hex,hm x (List.mem_cons_of_mem _ hx)]
      obtain ⟨m',hm',hget⟩ := ih (fun x hx => hf x (List.mem_cons_of_mem _ hx)) hd.2 hrest
      refine ⟨m',?_,?_⟩
      · rw [List.map_cons,List.foldlM_cons,hf e (by simp) m (hm e (by simp))]
        exact hm'
      · intro k v
        rw [hget,ExtTreeMap.getElem?_insert]
        by_cases hk : e.1 = k
        · subst hk
          have hnot : (e.1, v) ∉ es := fun hc => hne hc rfl
          rw [if_pos (LawfulEqCmp.compare_eq_iff_eq.mpr rfl),hm e (by simp)]
          constructor
          · rintro (hc | hc)
            · exact absurd hc hnot
            · obtain rfl := Option.some.inj hc
              exact .inl (by simp)
          · rintro (hc | hc)
            · rcases List.mem_cons.mp hc with he | he
              · exact .inr (by rw [← he])
              · exact absurd he hnot
            · simp at hc
        · have hke : ¬ (k, v) = e := by
            rintro rfl
            exact hk rfl
          rw [if_neg (mt LawfulEqCmp.compare_eq_iff_eq.mp hk)]
          simp [hke]

theorem foldlM_toList (t : ExtTreeMap κ β cmp)
    {f : ExtTreeMap κ β cmp → ε → Option (ExtTreeMap κ β cmp)} {enc : κ × β → ε}
    (hf : ∀ k v, t[k]? = some v → ∀ m, m[k]? = none → f m (enc (k, v)) = some (m.insert k v)) :
    (t.toList.map enc).foldlM f ∅ = some t := by
  have hmem : ∀ {k v}, (k, v) ∈ t.toList ↔ t[k]? = some v :=
    ExtTreeMap.mem_toList_iff_getElem?_eq_some
  have hd : (t.toList.map Prod.fst).Nodup := by
    rw [ExtTreeMap.map_fst_toList_eq_keys]
    exact ExtTreeMap.nodup_keys
  obtain ⟨m,hm,hget⟩ := foldlM_insert_get (m := ∅) (fun e he => hf e.1 e.2 (hmem.mp he)) hd (by simp)
  rw [hm]
  congr 1
  refine ExtTreeMap.ext_getElem? ?_
  intro k
  refine Option.ext ?_
  intro v
  rw [hget,hmem]
  simp

theorem foldl_toList (t : ExtTreeMap κ β cmp) {f : ExtTreeMap κ β cmp → ε → ExtTreeMap κ β cmp}
    {enc : κ × β → ε}
    (hf : ∀ k v, t[k]? = some v → ∀ m, m[k]? = none → f m (enc (k, v)) = m.insert k v) :
    (t.toList.map enc).foldl f ∅ = t := by
  have h : (t.toList.map enc).foldlM (fun m e => some (f m e)) ∅ = some t :=
    foldlM_toList t (fun k v hk m hm => congrArg some (hf k v hk m hm))
  have hp : (t.toList.map enc).foldlM (fun m e => some (f m e)) ∅ =
      some ((t.toList.map enc).foldl f ∅) := List.foldlM_pure
  rw [hp] at h
  exact Option.some.inj h

end Tree
