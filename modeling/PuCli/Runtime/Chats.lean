import PuCli.Runtime.AnswerText

namespace PuCli

variable {ρ : Type}

namespace Executing

-- Every entry into Chat: what the executor held there, and the round that answered it.
def chatted (host : Host) (turn : Turn ρ) :
    List (Round ρ) → Budgeted → Executing ρ → List (Executing ρ × Round ρ)
  | [], _, _ => []
  | round :: rounds, budget, st =>
      let checked := checkBudget turn budget st
      if checked.reached ∧ checked.wrapUpAsked then []
      else
        match callProvider host turn round (asking host turn budget round st) with
        | .error _ => []
        | .ok (.answered reply, answered) =>
            (asking host turn budget round st, round) ::
              if reply.toolCalls.isEmpty then []
              else chatted host turn rounds ⟨checked.reached, budget.wrapUpAsked || checked.reached⟩
                (runTools host turn round reply answered)
        | .ok _ => [(asking host turn budget round st, round)]

variable {host : Host} {turn : Turn ρ} {st st' : Executing ρ} {round : Round ρ}
variable {rounds : List (Round ρ)} {budget : Budgeted} {reply : ChatResult}

theorem chatted_spent
    (hover : (checkBudget turn budget st).reached ∧ (checkBudget turn budget st).wrapUpAsked) :
    chatted host turn (round :: rounds) budget st = [] := if_pos hover

theorem chatted_threw {what : String}
    (hover : ¬ ((checkBudget turn budget st).reached ∧ (checkBudget turn budget st).wrapUpAsked))
    (hc : callProvider host turn round (asking host turn budget round st) = .error what) :
    chatted host turn (round :: rounds) budget st = [] := by
  simp only [chatted,if_neg hover,hc]

theorem chatted_unanswered {called : Called}
    (hover : ¬ ((checkBudget turn budget st).reached ∧ (checkBudget turn budget st).wrapUpAsked))
    (hc : callProvider host turn round (asking host turn budget round st) = .ok (called, st'))
    (hf : ∀ reply, called ≠ .answered reply) :
    chatted host turn (round :: rounds) budget st = [(asking host turn budget round st, round)] := by
  cases called with
  | answered reply => exact absurd rfl (hf reply)
  | failed => simp only [chatted,if_neg hover,hc]
  | stopped => simp only [chatted,if_neg hover,hc]
  | abandoned => simp only [chatted,if_neg hover,hc]

theorem chatted_answered
    (hover : ¬ ((checkBudget turn budget st).reached ∧ (checkBudget turn budget st).wrapUpAsked))
    (hc : callProvider host turn round (asking host turn budget round st) =
      .ok (.answered reply, st')) (hempty : reply.toolCalls.isEmpty = true) :
    chatted host turn (round :: rounds) budget st = [(asking host turn budget round st, round)] := by
  simp only [chatted,if_neg hover,hc,hempty,if_true]

theorem chatted_called
    (hover : ¬ ((checkBudget turn budget st).reached ∧ (checkBudget turn budget st).wrapUpAsked))
    (hc : callProvider host turn round (asking host turn budget round st) =
      .ok (.answered reply, st')) (hempty : ¬ reply.toolCalls.isEmpty = true) :
    chatted host turn (round :: rounds) budget st = (asking host turn budget round st, round) ::
      chatted host turn rounds ⟨(checkBudget turn budget st).reached,
        budget.wrapUpAsked || (checkBudget turn budget st).reached⟩
        (runTools host turn round reply st') := by
  simp only [chatted,if_neg hover,hc,if_neg hempty]

end Executing

end PuCli
