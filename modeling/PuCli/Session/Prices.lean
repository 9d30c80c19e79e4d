import Mathlib.Data.Option.Basic
import PuCli.Session.Usage

namespace PuCli

namespace Cost

variable {prices : List Cost} {price total other : Cost}

def OneUnit (prices : List Cost) : Prop := ∀ p ∈ prices, ∀ q ∈ prices, p.unit = q.unit

structure Sums (prices : List Cost) (total : Cost) : Prop where
  spent : prices ≠ []
  unit : ∀ p ∈ prices, p.unit = total.unit
  amount : total.amount = Double.sum (prices.map Cost.amount)

-- A price is there exactly when everything summed carries one and all of them share a unit.
def SumsExactly (costs : List (Option Cost)) (total : Option Cost) : Prop :=
  ∀ c, total = some c ↔ ∃ prices, costs = prices.map some ∧ Sums prices c

theorem Sums.oneUnit (h : Sums prices total) : OneUnit prices :=
  fun p hp q hq => (h.unit p hp).trans (h.unit q hq).symm

theorem Sums.unique (h : Sums prices total) (h' : Sums prices other) : total = other := by
  obtain ⟨price,hprice⟩ := List.exists_mem_of_ne_nil prices h.spent
  have hunit : total.unit = other.unit := (h.unit price hprice).symm.trans (h'.unit price hprice)
  have hamount : total.amount = other.amount := h.amount.trans h'.amount.symm
  obtain ⟨amount,unit⟩ := total
  obtain ⟨amount',unit'⟩ := other
  rw [show amount = amount' from hamount,show unit = unit' from hunit]

theorem sums_singleton (price : Cost) : Sums [price] price := by
  refine ⟨List.cons_ne_nil _ _,?_,?_⟩
  · intro p hp
    rw [List.mem_singleton.mp hp]
  · simp

theorem Sums.concat (h : Sums prices total) (hunit : price.unit = total.unit) :
    Sums (prices ++ [price]) ⟨total.amount + price.amount, total.unit⟩ := by
  refine ⟨by simp,?_,?_⟩
  · intro p hp
    rcases List.mem_append.mp hp with hp | hp
    · exact h.unit p hp
    · rw [List.mem_singleton.mp hp]
      exact hunit
  · rw [List.map_append,List.map_singleton,Double.sum_concat (by simpa using h.spent),h.amount]

theorem oneUnit_nil : OneUnit [] := fun _ hp => absurd hp List.not_mem_nil

theorem OneUnit.init (h : OneUnit (prices ++ [price])) : OneUnit prices :=
  fun p hp q hq => h p (List.mem_append_left _ hp) q (List.mem_append_left _ hq)

theorem Sums.oneUnit_concat_iff (h : Sums prices total) :
    OneUnit (prices ++ [price]) ↔ price.unit = total.unit := by
  constructor
  · intro hone
    obtain ⟨first,hfirst⟩ := List.exists_mem_of_ne_nil prices h.spent
    have hsame := hone price (by simp) first (List.mem_append_left _ hfirst)
    exact hsame.trans (h.unit first hfirst)
  · intro hunit
    exact (h.concat hunit).oneUnit

theorem sumsExactly_none {costs : List (Option Cost)} (h : none ∈ costs) :
    SumsExactly costs none := by
  intro c
  refine iff_of_false (by simp) ?_
  rintro ⟨prices,rfl,-⟩
  simp at h

theorem map_some_injective {prices later : List Cost}
    (h : prices.map some = later.map some) : prices = later :=
  List.map_injective_iff.mpr (Option.some_injective _) h

theorem sumsExactly_priced (h : Sums prices total) : SumsExactly (prices.map some) (some total) := by
  intro c
  constructor
  · intro hc
    obtain rfl := Option.some.inj hc
    exact ⟨prices,rfl,h⟩
  · rintro ⟨others,hsame,hc⟩
    obtain rfl := map_some_injective hsame
    rw [h.unique hc]

theorem sumsExactly_mixed (h : ¬ OneUnit prices) : SumsExactly (prices.map some) none := by
  intro c
  refine iff_of_false (by simp) ?_
  rintro ⟨others,hsame,hc⟩
  obtain rfl := map_some_injective hsame
  exact h hc.oneUnit

theorem sumsExactly_nil : SumsExactly [] none := by
  intro c
  refine iff_of_false (by simp) ?_
  rintro ⟨prices,hnil,hc⟩
  exact hc.spent (List.map_eq_nil_iff.mp hnil.symm)

end Cost

end PuCli
