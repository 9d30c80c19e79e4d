import PuCli.Library.Counts
import PuCli.Runtime.Chats
import PuCli.Session.Prices

namespace PuCli

open Cost

variable {ρ : Type}

def Round.reported (round : Round ρ) : Option TokenUsage :=
  match round.reply.chat with
  | .ok reply => reply.usage
  | .error _ => none

def addReported (usage : Option TokenUsage) (reported : TokenUsage) : Option TokenUsage :=
  some (addUsage usage reported)

theorem usage_noteReply (r : ExecutionResult) (reply : ChatResult) :
    (r.noteReply reply).usage = reply.usage.toList.foldl addReported r.usage := by
  unfold ExecutionResult.noteReply
  cases reply.usage <;> (dsimp only; split <;> rfl)

-- How a turn is concluded depends on the counts, and changes neither them nor the usage.
theorem tally_conclude (r : ExecutionResult) (budgetReached : Bool) :
    (r.conclude budgetReached).usage = r.usage ∧ (r.conclude budgetReached).rounds = r.rounds ∧
      (r.conclude budgetReached).model = r.model := by
  unfold ExecutionResult.conclude
  split
  · exact ⟨rfl,rfl,rfl⟩
  · split
    · dsimp only
      split <;> exact ⟨rfl,rfl,rfl⟩
    · split <;> exact ⟨rfl,rfl,rfl⟩

theorem usage_conclude (r : ExecutionResult) (budgetReached : Bool) :
    (r.conclude budgetReached).usage = r.usage := (tally_conclude r budgetReached).1

namespace Executing

variable {host : Host} {turn : Turn ρ} {st st' : Executing ρ} {round : Round ρ}
variable {rounds : List (Round ρ)} {budget : Budgeted} {reply : ChatResult}

theorem usage_heard (turn : Turn ρ) (round : Round ρ) (st : Executing ρ) :
    (heard turn round st).result.usage = st.result.usage := by
  obtain ⟨-,said,streamed,heq⟩ := heard_only turn round st
  rw [heq]

theorem usage_asking (host : Host) (turn : Turn ρ) (budget : Budgeted) (round : Round ρ)
    (st : Executing ρ) : (asking host turn budget round st).result.usage = st.result.usage := by
  have hp : (st.pass turn round.opening).result.usage = st.result.usage := by rw [result_pass]
  unfold asking askWrapUp
  split <;> exact hp

theorem usage_runTools (round : Round ρ) (reply : ChatResult) (st : Executing ρ) :
    (runTools host turn round reply st).result.usage = st.result.usage := by
  obtain ⟨count,blocked,unaskable,heq⟩ := runTools_counts host turn round reply st
  rw [heq]

theorem usage_asked {called : Called}
    (hc : callProvider host turn round (asking host turn budget round st) = .ok (called, st')) :
    st'.result.usage = round.reported.toList.foldl addReported st.result.usage := by
  have hsame : (heard turn round (asking host turn budget round st)).result.usage =
      st.result.usage := by rw [usage_heard,usage_asking]
  obtain ⟨reply,hreply,_,rfl⟩ | ⟨what,hwhat,hfailed⟩ := callProvider_cases hc
  · rw [usage_noteReply,hsame,Round.reported,hreply]
  · have hnone : round.reported = none := by rw [Round.reported,hwhat]
    rw [hnone]
    obtain ⟨_,_,rfl⟩ | ⟨_,_,_,rfl⟩ | ⟨_,_,_,rfl⟩ := hfailed
    · exact hsame
    · exact hsame
    · exact hsame

-- What the rounds of a run reported, in the order Chat returned them.
def reports (host : Host) (turn : Turn ρ) (rounds : List (Round ρ)) (budget : Budgeted)
    (st : Executing ρ) : List TokenUsage :=
  (chatted host turn rounds budget st).filterMap (fun chat => chat.2.reported)

theorem reports_of_chatted {chats : List (Executing ρ × Round ρ)}
    (h : chatted host turn (round :: rounds) budget st = (st', round) :: chats) :
    reports host turn (round :: rounds) budget st =
      round.reported.toList ++ chats.filterMap (fun chat => chat.2.reported) := by
  rw [reports,h]
  cases hr : round.reported <;> simp [hr]

theorem usage_runToolLoop (rounds : List (Round ρ)) (budget : Budgeted) (st : Executing ρ) :
    (runToolLoop host turn rounds budget st).2.result.usage =
      (reports host turn rounds budget st).foldl addReported st.result.usage := by
  induction rounds generalizing budget st with
  | nil =>
      simp only [runToolLoop]
      split
      · exact usage_conclude _ _
      · rfl
  | cons round rounds ih =>
      cases looped host turn round rounds budget st with
      | spent hover heq =>
          rw [heq,reports,chatted_spent hover]
          exact usage_conclude _ _
      | threw hover hc heq =>
          rw [heq,reports,chatted_threw hover hc]
          exact usage_asking host turn budget round st
      | failed hover hc heq =>
          rw [heq,reports_of_chatted (chatted_unanswered hover hc (by simp)),List.filterMap_nil,
            List.append_nil,← usage_asked hc]
          exact usage_conclude _ _
      | stopped hover hc heq =>
          rw [heq,reports_of_chatted (chatted_unanswered hover hc (by simp)),List.filterMap_nil,
            List.append_nil,← usage_asked hc]
          rfl
      | abandoned hover hc heq =>
          rw [heq,reports_of_chatted (chatted_unanswered hover hc (by simp)),List.filterMap_nil,
            List.append_nil,← usage_asked hc]
      | answered hover hc hempty heq =>
          rw [heq,reports_of_chatted (chatted_answered hover hc hempty),List.filterMap_nil,
            List.append_nil,← usage_asked hc]
          exact usage_conclude _ _
      | called hover hc hempty heq =>
          rw [heq,ih,reports_of_chatted (chatted_called hover hc hempty),List.foldl_append,
            ← usage_asked hc,usage_runTools]
          rfl

end Executing

theorem addCost_none (total : Option Cost) : addCost total none = none := by
  cases total <;> rfl

theorem exists_addCost_some (total : Option Cost) (price : Cost) :
    ∃ sum, addCost total (some price) = some sum := by
  cases total with
  | none => exact ⟨price,rfl⟩
  | some total =>
      unfold addCost
      dsimp only
      split
      · exact ⟨_,rfl⟩
      · exact ⟨_,rfl⟩

theorem sums_addCost {prices : List Cost} (hne : prices ≠ []) (hone : OneUnit prices) :
    ∃ total, (prices.map some).foldl addCost none = some total ∧ Sums prices total := by
  induction prices using List.reverseRecOn with
  | nil => exact absurd rfl hne
  | append_singleton prices price ih =>
      rw [List.map_append,List.map_singleton,List.foldl_concat]
      by_cases hnil : prices = []
      · subst hnil
        exact ⟨price,rfl,sums_singleton price⟩
      · obtain ⟨total,hfold,hsums⟩ := ih hnil hone.init
        have hunit := hsums.oneUnit_concat_iff.mp hone
        rw [hfold]
        exact ⟨_,if_pos hunit.symm,hsums.concat hunit⟩

-- The one optional is empty before the first price and again after an unpriced round.
theorem sumsExactly_addCost_iff (costs : List (Option Cost)) :
    SumsExactly costs (costs.foldl addCost none) ↔
      costs.getLast? = some none ∨ ∃ prices, costs = prices.map some ∧ OneUnit prices := by
  constructor
  · intro h
    rcases List.eq_nil_or_concat costs with rfl | ⟨init,last,rfl⟩
    · exact .inr ⟨[],rfl,oneUnit_nil⟩
    · cases last with
      | none =>
          rw [List.concat_eq_append]
          exact .inl List.getLast?_concat
      | some price =>
          obtain ⟨total,htotal⟩ := exists_addCost_some (init.foldl addCost none) price
          have hfold : (init.concat (some price)).foldl addCost none = some total := by
            rw [List.concat_eq_append,List.foldl_concat,htotal]
          obtain ⟨prices,hcosts,hsums⟩ := (h total).mp hfold
          exact .inr ⟨prices,hcosts,hsums.oneUnit⟩
  · rintro (hlast | ⟨prices,rfl,hone⟩)
    · obtain ⟨init,rfl⟩ := List.getLast?_eq_some_iff.mp hlast
      rw [List.foldl_concat,addCost_none]
      exact sumsExactly_none (by simp)
    · by_cases hne : prices = []
      · subst hne
        exact sumsExactly_nil
      · obtain ⟨total,hfold,hsums⟩ := sums_addCost hne hone
        rw [hfold]
        exact sumsExactly_priced hsums

structure TurnCostRight (reported : List TokenUsage) (usage : Option TokenUsage) : Prop where
  silent : usage = none ↔ reported = []
  promptTokens : (usage.getD {}).promptTokens.toInt =
    Counts.exact (reported.map TokenUsage.promptTokens)
  completionTokens : (usage.getD {}).completionTokens.toInt =
    Counts.exact (reported.map TokenUsage.completionTokens)
  totalTokens : (usage.getD {}).totalTokens.toInt =
    Counts.exact (reported.map TokenUsage.totalTokens)
  cachedTokens : (usage.getD {}).cachedTokens.toInt =
    Counts.exact (reported.map TokenUsage.cachedTokens)
  cost : SumsExactly (reported.map TokenUsage.cost) (usage.bind TokenUsage.cost)

-- Where prices are mixed with none or with another unit, the last round reported none.
structure TurnCostFits (reported : List TokenUsage) : Prop where
  promptTokens : Counts.Fits (reported.map TokenUsage.promptTokens)
  completionTokens : Counts.Fits (reported.map TokenUsage.completionTokens)
  totalTokens : Counts.Fits (reported.map TokenUsage.totalTokens)
  cachedTokens : Counts.Fits (reported.map TokenUsage.cachedTokens)
  cost : (reported.map TokenUsage.cost).getLast? = some none ∨
    ∃ prices, reported.map TokenUsage.cost = prices.map some ∧ OneUnit prices

theorem cost_foldl (reported : List TokenUsage) (usage : Option TokenUsage) :
    (reported.foldl addReported usage).bind TokenUsage.cost =
      (reported.map TokenUsage.cost).foldl addCost (usage.bind TokenUsage.cost) := by
  rw [List.foldl_map]
  refine (List.foldl_hom (fun u : Option TokenUsage => u.bind TokenUsage.cost) ?_).symm
  intro u r
  cases u <;> rfl

theorem foldl_addReported_eq_none_iff (reported : List TokenUsage) :
    reported.foldl addReported none = none ↔ reported = [] := by
  rcases List.eq_nil_or_concat reported with rfl | ⟨init,last,rfl⟩
  · exact iff_of_true rfl rfl
  · rw [List.concat_eq_append,List.foldl_concat]
    exact iff_of_false (by simp [addReported]) (by simp)

theorem turnCostRight_foldl_iff (reported : List TokenUsage) :
    TurnCostRight reported (reported.foldl addReported none) ↔ TurnCostFits reported := by
  have hprompt := @Counts.toInt_field_eq_iff _ _
    (fun u : Option TokenUsage => (u.getD {}).promptTokens) TokenUsage.promptTokens addReported
    (fun _ _ => rfl) reported none rfl
  have hcompletion := @Counts.toInt_field_eq_iff _ _
    (fun u : Option TokenUsage => (u.getD {}).completionTokens) TokenUsage.completionTokens
    addReported (fun _ _ => rfl) reported none rfl
  have htotal := @Counts.toInt_field_eq_iff _ _
    (fun u : Option TokenUsage => (u.getD {}).totalTokens) TokenUsage.totalTokens addReported
    (fun _ _ => rfl) reported none rfl
  have hcached := @Counts.toInt_field_eq_iff _ _
    (fun u : Option TokenUsage => (u.getD {}).cachedTokens) TokenUsage.cachedTokens addReported
    (fun _ _ => rfl) reported none rfl
  have hcost := sumsExactly_addCost_iff (reported.map TokenUsage.cost)
  have hfold := cost_foldl reported none
  rw [Option.bind_none] at hfold
  rw [← hfold] at hcost
  constructor
  · intro h
    exact ⟨hprompt.mp h.promptTokens,hcompletion.mp h.completionTokens,htotal.mp h.totalTokens,
      hcached.mp h.cachedTokens,hcost.mp h.cost⟩
  · intro h
    exact ⟨foldl_addReported_eq_none_iff reported,hprompt.mpr h.promptTokens,
      hcompletion.mpr h.completionTokens,htotal.mpr h.totalTokens,hcached.mpr h.cachedTokens,
      hcost.mpr h.cost⟩

namespace Executing

theorem turn_cost_right_iff (host : Host) (turn : Turn ρ) (rounds : List (Round ρ))
    (st : Executing ρ) :
    let started := { st with result := {} }
    TurnCostRight (reports host turn rounds {} started)
        (runToolLoop host turn rounds {} started).2.result.usage ↔
      TurnCostFits (reports host turn rounds {} started) := by
  intro started
  rw [usage_runToolLoop]
  exact turnCostRight_foldl_iff _

def unpricedCall : Round Empty where
  reply := .whole { toolCalls := [Runtime.bashCall "c1"], usage := some { promptTokens := 7 } }
  steps _ := { answer := ⟨.ok "ran", ⟨.ok "", .ok ""⟩⟩ }

def pricedAnswer : Round Empty where
  reply := .whole { content := "done", usage := some { promptTokens := 9, cost := some ⟨2, "usd"⟩ } }
  steps _ := { answer := ⟨.ok "", ⟨.ok "", .ok ""⟩⟩ }

-- A round with no price, then one with a price: the turn is given the price of the second.
theorem turn_priced_in_part :
    let started : Executing Empty := Runtime.servingC.asked Runtime.boardSite.host "go"
    let turn : Turn Empty := Runtime.servingC.turn true (fun c _ => c)
    ¬ TurnCostRight (reports Runtime.boardSite.host turn [unpricedCall, pricedAnswer] {} started)
      (runToolLoop Runtime.boardSite.host turn [unpricedCall, pricedAnswer] {}
        started).2.result.usage := by
  intro started turn h
  have hreports : reports Runtime.boardSite.host turn [unpricedCall, pricedAnswer] {} started =
      [{ promptTokens := 7 }, { promptTokens := 9, cost := some ⟨2, "usd"⟩ }] := by decide
  have hpriced : (runToolLoop Runtime.boardSite.host turn [unpricedCall, pricedAnswer] {}
      started).2.result.usage.bind TokenUsage.cost = some ⟨2, "usd"⟩ := by decide
  obtain ⟨prices,hprices,-⟩ := (h.cost ⟨2, "usd"⟩).mp hpriced
  rw [hreports] at hprices
  have hnone : none ∈ prices.map some := hprices ▸ List.mem_cons_self
  simp at hnone

end Executing

end PuCli
