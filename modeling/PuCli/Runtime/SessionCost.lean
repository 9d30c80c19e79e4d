import PuCli.Library.Counts
import PuCli.Runtime.UsageTotal
import PuCli.Session.Prices

namespace PuCli

open Cost

def prices (entries : List TurnUsage) : List Cost := entries.filterMap TurnUsage.cost

namespace Totalling

variable {entries : List TurnUsage} {usage : TurnUsage} {s : Totalling} {price : Cost}

-- `total.cost->unit` is read while `total.cost` holds nothing.
def ReadsAbsent (s : Totalling) (usage : TurnUsage) : Prop :=
  usage.cost ≠ none ∧ s.anyCostSeen = true ∧ s.total.cost = none

inductive Summed (entries : List TurnUsage) (s : Totalling) : Prop
  | unpriced (hprices : prices entries = []) (hseen : s.anyCostSeen = false)
      (hcost : s.total.cost = none)
      (hmissing : s.anyCostMissing = true ↔ none ∈ entries.map TurnUsage.cost)
  | summing {total : Cost} (hsums : Sums (prices entries) total) (hseen : s.anyCostSeen = true)
      (hcost : s.total.cost = some total)
      (hmissing : s.anyCostMissing = true ↔ none ∈ entries.map TurnUsage.cost)
  | mixed (hunits : ¬ OneUnit (prices entries)) (hseen : s.anyCostSeen = true)
      (hcost : s.total.cost = none) (hmissing : s.anyCostMissing = true)

theorem prices_unpriced (entries : List TurnUsage) (h : usage.cost = none) :
    prices (entries ++ [usage]) = prices entries := by
  simp [prices,h]

theorem prices_priced (entries : List TurnUsage) (h : usage.cost = some price) :
    prices (entries ++ [usage]) = prices entries ++ [price] := by
  simp [prices,h]

theorem map_cost_eq (h : none ∉ entries.map TurnUsage.cost) :
    entries.map TurnUsage.cost = (prices entries).map some := by
  induction entries with
  | nil => rfl
  | cons usage entries ih =>
      rw [List.map_cons,List.mem_cons,not_or] at h
      obtain ⟨price,hprice⟩ := Option.ne_none_iff_exists'.mp (Ne.symm h.1)
      have hcons : prices (usage :: entries) = price :: prices entries :=
        List.filterMap_cons_some hprice
      rw [List.map_cons,ih h.2,hprice,hcons,List.map_cons]

theorem add_unpriced (s : Totalling) (h : usage.cost = none) :
    (s.add usage).anyCostSeen = s.anyCostSeen ∧ (s.add usage).anyCostMissing = true ∧
      (s.add usage).total.cost = s.total.cost := by
  simp [add,h]

theorem add_first (h : usage.cost = some price) (hs : s.anyCostSeen = false) :
    (s.add usage).anyCostSeen = true ∧ (s.add usage).anyCostMissing = s.anyCostMissing ∧
      (s.add usage).total.cost = some price := by
  simp [add,h,hs]

theorem add_same {total : Cost} (h : usage.cost = some price) (hs : s.anyCostSeen = true)
    (hc : s.total.cost = some total) (hunit : price.unit = total.unit) :
    (s.add usage).anyCostSeen = true ∧ (s.add usage).anyCostMissing = s.anyCostMissing ∧
      (s.add usage).total.cost = some ⟨total.amount + price.amount, total.unit⟩ := by
  simp [add,h,hs,hc,hunit]

theorem add_other {total : Cost} (h : usage.cost = some price) (hs : s.anyCostSeen = true)
    (hc : s.total.cost = some total) (hunit : price.unit ≠ total.unit) :
    (s.add usage).anyCostSeen = true ∧ (s.add usage).anyCostMissing = true ∧
      (s.add usage).total.cost = none := by
  simp [add,h,hs,hc,Ne.symm hunit]

theorem add_absent (h : usage.cost = some price) (hs : s.anyCostSeen = true)
    (hc : s.total.cost = none) :
    (s.add usage).anyCostSeen = true ∧ (s.add usage).anyCostMissing = true ∧
      (s.add usage).total.cost = none := by
  simp [add,h,hs,hc]

theorem Summed.unpricedEntry (h : Summed entries s) (hu : usage.cost = none) :
    Summed (entries ++ [usage]) (s.add usage) := by
  obtain ⟨hseen',hmissing',hcost'⟩ := s.add_unpriced hu
  have hall : (s.add usage).anyCostMissing = true ↔
      none ∈ (entries ++ [usage]).map TurnUsage.cost := by simp [hmissing',hu]
  have hsame := prices_unpriced entries hu
  cases h with
  | unpriced hprices hseen hcost hmissing =>
      exact .unpriced (hsame.trans hprices) (hseen'.trans hseen) (hcost'.trans hcost) hall
  | summing hsums hseen hcost hmissing =>
      exact .summing (hsame.symm ▸ hsums) (hseen'.trans hseen) (hcost'.trans hcost) hall
  | mixed hunits hseen hcost hmissing =>
      exact .mixed (hsame.symm ▸ hunits) (hseen'.trans hseen) (hcost'.trans hcost) hmissing'

theorem Summed.pricedEntry (h : Summed entries s) (hu : usage.cost = some price) :
    Summed (entries ++ [usage]) (s.add usage) := by
  have hsame := prices_priced entries hu
  have hall : none ∈ (entries ++ [usage]).map TurnUsage.cost ↔
      none ∈ entries.map TurnUsage.cost := by simp [hu]
  cases h with
  | unpriced hprices hseen hcost hmissing =>
      obtain ⟨hseen',hmissing',hcost'⟩ := add_first hu hseen
      rw [hprices,List.nil_append] at hsame
      exact .summing (hsame ▸ sums_singleton price) hseen' hcost'
        (by rw [hmissing',hmissing,hall])
  | @summing total hsums hseen hcost hmissing =>
      by_cases hunit : price.unit = total.unit
      · obtain ⟨hseen',hmissing',hcost'⟩ := add_same hu hseen hcost hunit
        exact .summing (hsame ▸ hsums.concat hunit) hseen' hcost' (by rw [hmissing',hmissing,hall])
      · obtain ⟨hseen',hmissing',hcost'⟩ := add_other hu hseen hcost hunit
        refine .mixed ?_ hseen' hcost' hmissing'
        rw [hsame,hsums.oneUnit_concat_iff]
        exact hunit
  | mixed hunits hseen hcost hmissing =>
      obtain ⟨hseen',hmissing',hcost'⟩ := add_absent hu hseen hcost
      refine .mixed ?_ hseen' hcost' hmissing'
      rw [hsame]
      exact fun hone => hunits hone.init

theorem summed_foldl (entries : List TurnUsage) : Summed entries (entries.foldl add {}) := by
  induction entries using List.reverseRecOn with
  | nil => exact .unpriced rfl rfl rfl (by simp)
  | append_singleton entries usage ih =>
      rw [List.foldl_concat]
      cases hu : usage.cost with
      | none => exact ih.unpricedEntry hu
      | some price => exact ih.pricedEntry hu

theorem Summed.not_readsAbsent_iff (h : Summed entries s) (hu : usage.cost = some price) :
    ¬ s.ReadsAbsent usage ↔ OneUnit (prices entries) := by
  have hpriced : usage.cost ≠ none := by simp [hu]
  cases h with
  | unpriced hprices hseen hcost hmissing =>
      refine iff_of_true ?_ (hprices ▸ oneUnit_nil)
      rintro ⟨-,hs,-⟩
      rw [hseen] at hs
      cases hs
  | summing hsums hseen hcost hmissing =>
      refine iff_of_true ?_ hsums.oneUnit
      rintro ⟨-,-,hc⟩
      rw [hcost] at hc
      cases hc
  | mixed hunits hseen hcost hmissing =>
      exact iff_of_false (fun hn => hn ⟨hpriced,hseen,hcost⟩) hunits

theorem reads_iff (entries : List TurnUsage) :
    Run.Along add (fun s usage => ¬ s.ReadsAbsent usage) {} entries ↔
      OneUnit (prices entries).dropLast := by
  induction entries using List.reverseRecOn with
  | nil => exact iff_of_true trivial oneUnit_nil
  | append_singleton entries usage ih =>
      rw [Run.along_append,ih]
      cases hu : usage.cost with
      | none =>
          rw [prices_unpriced entries hu]
          exact and_iff_left (fun hr => hr.1 hu)
      | some price =>
          rw [(summed_foldl entries).not_readsAbsent_iff hu,prices_priced entries hu,
            List.dropLast_concat]
          refine and_iff_right_of_imp ?_
          intro hone p hp q hq
          exact hone p (List.mem_of_mem_dropLast hp) q (List.mem_of_mem_dropLast hq)

theorem pricedTurns_add (s : Totalling) (h : usage.cost = some price) :
    (s.add usage).total.pricedTurns = s.total.pricedTurns + 1 := by
  simp only [add,h]
  split
  · split
    · split <;> rfl
    · rfl
  · rfl

theorem pricedTurns_foldl (entries : List TurnUsage) :
    (entries.foldl add {}).total.pricedTurns = (prices entries).length := by
  induction entries using List.reverseRecOn with
  | nil => rfl
  | append_singleton entries usage ih =>
      rw [List.foldl_concat]
      cases hu : usage.cost with
      | none =>
          rw [prices_unpriced entries hu,← ih]
          simp [add,hu]
      | some price => rw [prices_priced entries hu,List.length_append,← ih,pricedTurns_add _ hu]; rfl

end Totalling

namespace UsageLedger

open Totalling

variable {ledger : UsageLedger}

def entries (ledger : UsageLedger) : List TurnUsage := ledger.toList.map Prod.snd

structure TotalRight (ledger : UsageLedger) : Prop where
  reads : Run.Along Totalling.add (fun s usage => ¬ s.ReadsAbsent usage) {} ledger.entries
  turns : (Int32.ofInt ledger.total.turns).toInt = ledger.entries.length
  pricedTurns : (Int32.ofInt ledger.total.pricedTurns).toInt = (prices ledger.entries).length
  rounds : ledger.total.rounds.toInt = Counts.exact (ledger.entries.map TurnUsage.rounds)
  promptTokens : ledger.total.promptTokens.toInt =
    Counts.exact (ledger.entries.map TurnUsage.promptTokens)
  completionTokens : ledger.total.completionTokens.toInt =
    Counts.exact (ledger.entries.map TurnUsage.completionTokens)
  cachedTokens : ledger.total.cachedTokens.toInt =
    Counts.exact (ledger.entries.map TurnUsage.cachedTokens)
  cost : SumsExactly (ledger.entries.map TurnUsage.cost) ledger.total.cost

-- Every priced entry but the last is in one unit, and the counts stay within an int.
structure TotalFits (ledger : UsageLedger) : Prop where
  units : OneUnit (prices ledger.entries).dropLast
  turns : ledger.entries.length < 2 ^ 31
  rounds : Counts.Fits (ledger.entries.map TurnUsage.rounds)
  promptTokens : Counts.Fits (ledger.entries.map TurnUsage.promptTokens)
  completionTokens : Counts.Fits (ledger.entries.map TurnUsage.completionTokens)
  cachedTokens : Counts.Fits (ledger.entries.map TurnUsage.cachedTokens)

theorem total_eq (ledger : UsageLedger) :
    ledger.total = { (ledger.entries.foldl Totalling.add {}).total with
      cost := if (ledger.entries.foldl Totalling.add {}).anyCostMissing then none
        else (ledger.entries.foldl Totalling.add {}).total.cost } := by
  unfold total entries
  dsimp only
  split <;> rfl

theorem cost_total (ledger : UsageLedger) :
    SumsExactly (ledger.entries.map TurnUsage.cost) ledger.total.cost := by
  rw [total_eq]
  dsimp only
  have hs := summed_foldl ledger.entries
  generalize ledger.entries.foldl Totalling.add {} = s at hs
  by_cases hnone : none ∈ ledger.entries.map TurnUsage.cost
  · have hmissing : s.anyCostMissing = true := by
      cases hs with
      | unpriced hprices hseen hcost hmissing => exact hmissing.mpr hnone
      | summing hsums hseen hcost hmissing => exact hmissing.mpr hnone
      | mixed hunits hseen hcost hmissing => exact hmissing
    rw [if_pos hmissing]
    exact sumsExactly_none hnone
  · rw [map_cost_eq hnone]
    cases hs with
    | unpriced hprices hseen hcost hmissing =>
        rw [hcost,ite_self,hprices]
        exact sumsExactly_nil
    | summing hsums hseen hcost hmissing =>
        rw [if_neg (fun h => hnone (hmissing.mp h)),hcost]
        exact sumsExactly_priced hsums
    | mixed hunits hseen hcost hmissing =>
        rw [if_pos hmissing]
        exact sumsExactly_mixed hunits

theorem toInt_count_eq_iff (n : Nat) : (Int32.ofInt n).toInt = n ↔ n < 2 ^ 31 := by
  rw [Counts.toInt_ofInt_eq_iff]
  constructor
  · intro h
    exact_mod_cast h.2
  · intro h
    exact ⟨(Int.neg_nonpos_of_nonneg (by decide)).trans (Int.natCast_nonneg n),by exact_mod_cast h⟩

theorem length_prices_le (entries : List TurnUsage) : (prices entries).length ≤ entries.length :=
  List.length_filterMap_le _ _

theorem total_right_iff (ledger : UsageLedger) : ledger.TotalRight ↔ ledger.TotalFits := by
  have hrounds := @Counts.toInt_field_eq_iff _ _ (fun s : Totalling => s.total.rounds)
    TurnUsage.rounds _ (fun s u => (counts_add s u).2.1) ledger.entries {} rfl
  have hprompt := @Counts.toInt_field_eq_iff _ _ (fun s : Totalling => s.total.promptTokens)
    TurnUsage.promptTokens _ (fun s u => (counts_add s u).2.2.1) ledger.entries {} rfl
  have hcompletion := @Counts.toInt_field_eq_iff _ _ (fun s : Totalling => s.total.completionTokens)
    TurnUsage.completionTokens _ (fun s u => (counts_add s u).2.2.2.1) ledger.entries {} rfl
  have hcached := @Counts.toInt_field_eq_iff _ _ (fun s : Totalling => s.total.cachedTokens)
    TurnUsage.cachedTokens _ (fun s u => (counts_add s u).2.2.2.2) ledger.entries {} rfl
  have htotal := ledger.total_eq
  have hcount : ledger.total.turns = ledger.entries.length := by
    rw [turns_total,entries,List.length_map,Std.ExtTreeMap.length_toList]
  have hpriced : ledger.total.pricedTurns = (prices ledger.entries).length := by
    rw [htotal]
    exact pricedTurns_foldl ledger.entries
  constructor
  · intro h
    refine ⟨(reads_iff _).mp h.reads,?_,hrounds.mp ?_,hprompt.mp ?_,hcompletion.mp ?_,hcached.mp ?_⟩
    · have hturns := h.turns
      rw [hcount] at hturns
      exact (toInt_count_eq_iff _).mp hturns
    · rw [← h.rounds,htotal]
    · rw [← h.promptTokens,htotal]
    · rw [← h.completionTokens,htotal]
    · rw [← h.cachedTokens,htotal]
  · intro h
    refine ⟨(reads_iff _).mpr h.units,?_,?_,?_,?_,?_,?_,ledger.cost_total⟩
    · rw [hcount]
      exact (toInt_count_eq_iff _).mpr h.turns
    · rw [hpriced]
      exact (toInt_count_eq_iff _).mpr ((length_prices_le ledger.entries).trans_lt h.turns)
    · rw [htotal]
      exact hrounds.mpr h.rounds
    · rw [htotal]
      exact hprompt.mpr h.promptTokens
    · rw [htotal]
      exact hcompletion.mpr h.completionTokens
    · rw [htotal]
      exact hcached.mpr h.cachedTokens

def pricedIn (nodeId unit : String) : TurnUsage := ⟨nodeId, 1, 7, 2, 0, some ⟨1, unit⟩, "m", "g"⟩

def twoUnits : UsageLedger :=
  ((record ∅ (pricedIn "n1" "usd")).record (pricedIn "n2" "credit")).record (pricedIn "n3" "credit")

-- The second entry ends the sum, and the third reads the price it left absent.
theorem total_reads_absent_price : ¬ twoUnits.TotalRight := by
  intro h
  have hentries : twoUnits.entries =
      [pricedIn "n1" "usd", pricedIn "n2" "credit", pricedIn "n3" "credit"] := rfl
  have hreads := h.reads
  rw [hentries] at hreads
  obtain ⟨-,-,hthird,-⟩ := hreads
  exact hthird ⟨by decide,rfl,rfl⟩

end UsageLedger

end PuCli
