import Mathlib.Data.Finset.Card
import Mathlib.Data.Finset.Image
import Mathlib.Data.Finset.Range
import Mathlib.Tactic.Common

-- A search along distinct candidates for the first that is not in use.
namespace Fresh

variable {α : Type} [DecidableEq α] {used : List α} {candidate : Nat → α} {fuel start index : Nat}
  {found : α}

def search (used : List α) (candidate : Nat → α) : Nat → Nat → Option α
  | 0, _ => none
  | fuel + 1, index =>
      if candidate index ∈ used then search used candidate fuel (index + 1)
      else some (candidate index)

theorem search_sound (h : search used candidate fuel start = some found) :
    found ∉ used ∧ ∃ index, start ≤ index ∧ found = candidate index ∧
      ∀ earlier, start ≤ earlier → earlier < index → candidate earlier ∈ used := by
  induction fuel generalizing start with
  | zero => cases h
  | succ fuel ih =>
      rw [search] at h
      split at h
      · next htaken =>
          obtain ⟨hfree,index,hle,rfl,hbefore⟩ := ih h
          refine ⟨hfree,index,by omega,rfl,?_⟩
          intro earlier hs hlt
          by_cases heq : earlier = start
          · exact heq ▸ htaken
          · exact hbefore earlier (by omega) hlt
      · next hfree =>
          obtain rfl := Option.some.inj h
          exact ⟨hfree,start,Nat.le_refl _,rfl,fun earlier hs hlt => absurd hs (by omega)⟩

theorem search_ends_of_free (hle : start ≤ index) (hfree : candidate index ∉ used)
    (hf : index < start + fuel) : ∃ found, search used candidate fuel start = some found := by
  induction fuel generalizing start with
  | zero => omega
  | succ fuel ih =>
      rw [search]
      split
      · next htaken =>
          have hne : start ≠ index := fun h => hfree (h ▸ htaken)
          exact ih (by omega) (by omega)
      · exact ⟨_,rfl⟩

theorem taken_le_length (hinj : Function.Injective candidate)
    (h : ∀ earlier < index, candidate earlier ∈ used) : index ≤ used.length := by
  have hsub : (Finset.range index).image candidate ⊆ used.toFinset := by
    intro a ha
    obtain ⟨earlier,hlt,rfl⟩ := Finset.mem_image.mp ha
    exact List.mem_toFinset.mpr (h earlier (Finset.mem_range.mp hlt))
  calc index = ((Finset.range index).image candidate).card := by
        rw [Finset.card_image_of_injective _ hinj,Finset.card_range]
    _ ≤ used.toFinset.card := Finset.card_le_card hsub
    _ ≤ used.length := List.toFinset_card_le used

theorem exists_free (hinj : Function.Injective candidate) (used : List α) :
    ∃ index ≤ used.length, candidate index ∉ used := by
  by_contra hall
  push Not at hall
  have hle : used.length + 1 ≤ used.length :=
    taken_le_length hinj (fun earlier hlt => hall earlier (by omega))
  omega

theorem search_ends (hinj : Function.Injective candidate) (used : List α) :
    ∃ found, search used candidate (used.length + 1) 0 = some found := by
  obtain ⟨index,hle,hfree⟩ := exists_free hinj used
  exact search_ends_of_free (Nat.zero_le index) hfree (by omega)

end Fresh
