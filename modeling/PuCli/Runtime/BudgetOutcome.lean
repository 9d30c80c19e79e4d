import PuCli.Runtime.AnswerText

namespace PuCli

variable {ρ : Type}

def wrapUpRound (token : Bool) (limit : Int) : List (Round ρ) → Bool → Nat → Option (Round ρ)
  | [], _, _ => none
  | round :: rounds, cancelled, count =>
      if limit ≤ count then some round
      else if round.calls.isEmpty then none
      else
        let out := round.ranOut token cancelled
        wrapUpRound token limit rounds out.cancelled (count + out.ran)

namespace Round

def Failed (round : Round ρ) : Prop := ∃ what, round.reply.chat = .error what

def Abandoned (round : Round ρ) : Prop := round.Failed ∧ round.shutdown = true

instance (round : Round ρ) : Decidable round.Failed :=
  match h : round.reply.chat with
  | .error what => isTrue ⟨what,h⟩
  | .ok _ => isFalse (by rintro ⟨what,hwhat⟩; rw [h] at hwhat; cases hwhat)

instance (round : Round ρ) : Decidable round.Abandoned := inferInstanceAs (Decidable (_ ∧ _))

variable {round : Round ρ} {token cancelled : Bool}

theorem stopped_opened (round : Round ρ) (h : (token && cancelled) = true) :
    (token && round.opened token cancelled) = true :=
  Flags.stopped_pass round.calling (@Flags.stopped_pass ρ token ⟨cancelled, ""⟩ round.opening h)

theorem stopped_ran (steps : Nat → CallStep ρ) (n : Nat) {f : Flags} (h : f.stopped token = true) :
    (Flags.ran token steps n f).2.stopped token = true := by
  cases n with
  | zero => exact h
  | succ n =>
      have hpass := Flags.stopped_pass (steps 0).before h
      simp only [Flags.ran,hpass,if_true]

theorem stopped_ranOut (round : Round ρ)
    (h : (token && cancelled) = true ∨ (round.ranOut token cancelled).ran < round.calls.length) :
    (token && (round.ranOut token cancelled).cancelled) = true := by
  have hran : (Flags.ran token round.steps round.calls.length
      ⟨round.opened token cancelled, ""⟩).2.stopped token = true := by
    rcases h with hstopped | hlt
    · exact stopped_ran _ _ (round.stopped_opened hstopped)
    · exact Flags.stopped_of_ran_lt _ _ _ hlt
  exact Flags.stopped_pass round.settling (Flags.stopped_pass round.closing hran)

end Round

def Wordless (reply : ChatResult) : Prop :=
  reply.content = "" ∧ projectReasoningText reply.reasoning = ""

structure BudgetEnd (wrapUp : Option (Round ρ)) (r : ExecutionResult) : Prop where
  reached : r.outcome = .toolBudgetReached ∧ r.hasError = true ↔
    ∃ round ∈ wrapUp, ∃ reply, round.reply.chat = .ok reply ∧
      (reply.toolCalls ≠ [] ∨ Wordless reply)
  answered : ∀ round ∈ wrapUp, ∀ reply, round.reply.chat = .ok reply → reply.toolCalls = [] →
    ¬ Wordless reply → r.outcome = .completed ∧ r.hasError = false ∧ r.content = answerOf reply
  failed : ∀ round ∈ wrapUp, ∀ what, round.reply.chat = .error what →
    r.outcome ≠ .toolBudgetReached ∧ r.hasError = true ∧
      r.errorMessage = "Request failed: " ++ readableError what

def KeepsBudgetEnd (wrapUp : Option (Round ρ)) (silent : Prop) : Prop :=
  ∀ round ∈ wrapUp, (round.Called → silent) ∧ (round.Failed → ¬ silent)

theorem answerOf_eq_empty {reply : ChatResult} : answerOf reply = "" ↔ Wordless reply := by
  unfold answerOf Wordless
  dsimp only
  split
  · next h => simp [h.2]
  · next h => grind

namespace ExecutionResult

variable {r : ExecutionResult} {round : Round ρ} {reply : ChatResult} {what : String}

structure Open (r : ExecutionResult) : Prop where
  outcome : r.outcome = .completed
  hasError : r.hasError = false

theorem conclude_reached (h : r.content = "") :
    (r.conclude true).outcome = .toolBudgetReached ∧ (r.conclude true).hasError = true := by
  simp [conclude,h]

theorem conclude_said (budgetReached : Bool) (h : r.content ≠ "") :
    r.conclude budgetReached = { r with notice := joinNotes r.notice r.shapeNotes } := by
  simp [conclude,h]

theorem outcome_conclude_unreached : (r.conclude false).outcome = r.outcome := by
  unfold conclude
  rw [if_neg (by simp)]
  split
  · dsimp only
    split <;> rfl
  · split <;> rfl

theorem ne_reached (h : r.outcome = .completed) : r.outcome ≠ .toolBudgetReached := by
  rw [h]
  decide

theorem budgetEnd_unasked (h : r.outcome = .completed) :
    BudgetEnd (none : Option (Round ρ)) (r.conclude false) := by
  have hnone (round : Round ρ) : round ∉ none := Option.not_mem_none round
  refine ⟨iff_of_false ?_ ?_,fun round hround => absurd hround (hnone round),
    fun round hround => absurd hround (hnone round)⟩
  · rw [outcome_conclude_unreached]
    exact fun hboth => ne_reached h hboth.1
  · rintro ⟨round,hround,_⟩
    exact hnone round hround

theorem budgetEnd_error_iff (hchat : round.reply.chat = .error what) :
    BudgetEnd (some round) r ↔ r.outcome ≠ .toolBudgetReached ∧ r.hasError = true ∧
      r.errorMessage = "Request failed: " ++ readableError what := by
  constructor
  · intro h
    exact h.failed round rfl what hchat
  · intro h
    refine ⟨iff_of_false (fun hboth => h.1 hboth.1) ?_,?_,?_⟩
    · rintro ⟨_,⟨⟩,reply,hreply,_⟩
      rw [hchat] at hreply
      cases hreply
    · rintro _ ⟨⟩ reply hreply
      rw [hchat] at hreply
      cases hreply
    · rintro _ ⟨⟩ other hother
      rw [hchat] at hother
      cases hother
      exact h

theorem budgetEnd_ok_iff (hchat : round.reply.chat = .ok reply) :
    BudgetEnd (some round) r ↔
      (r.outcome = .toolBudgetReached ∧ r.hasError = true ↔
        reply.toolCalls ≠ [] ∨ Wordless reply) ∧
      (reply.toolCalls = [] → ¬ Wordless reply →
        r.outcome = .completed ∧ r.hasError = false ∧ r.content = answerOf reply) := by
  have hended : (∃ asked ∈ some round, ∃ other, asked.reply.chat = .ok other ∧
      (other.toolCalls ≠ [] ∨ Wordless other)) ↔ reply.toolCalls ≠ [] ∨ Wordless reply := by
    simp [hchat]
  constructor
  · intro h
    exact ⟨h.reached.trans hended,h.answered round rfl reply hchat⟩
  · rintro ⟨hreached,hanswered⟩
    refine ⟨hreached.trans hended.symm,?_,?_⟩
    · rintro _ ⟨⟩ other hother
      rw [hchat] at hother
      cases hother
      exact hanswered
    · rintro _ ⟨⟩ what hwhat
      rw [hchat] at hwhat
      cases hwhat

theorem keepsBudgetEnd_none (silent : Prop) :
    KeepsBudgetEnd (none : Option (Round ρ)) silent :=
  fun round hround => absurd hround (Option.not_mem_none round)

theorem keepsBudgetEnd_error_iff {silent : Prop} (hchat : round.reply.chat = .error what) :
    KeepsBudgetEnd (some round) silent ↔ ¬ silent := by
  simp [KeepsBudgetEnd,Round.Called,Round.calls,Round.Failed,hchat]

theorem keepsBudgetEnd_ok_iff {silent : Prop} (hchat : round.reply.chat = .ok reply) :
    KeepsBudgetEnd (some round) silent ↔ (reply.toolCalls ≠ [] → silent) := by
  simp [KeepsBudgetEnd,Round.Called,Round.calls,Round.Failed,hchat]

theorem budgetEnd_failed_iff (hchat : round.reply.chat = .error what) (ho : r.outcome = .completed)
    (he : r.hasError = true) (hm : r.errorMessage = "Request failed: " ++ readableError what) :
    BudgetEnd (some round) (r.conclude true) ↔ KeepsBudgetEnd (some round) (r.content = "") := by
  rw [budgetEnd_error_iff hchat,keepsBudgetEnd_error_iff hchat]
  constructor
  · intro h hempty
    exact h.1 (conclude_reached hempty).1
  · intro hsaid
    rw [conclude_said true hsaid]
    exact ⟨ne_reached ho,he,hm⟩

theorem budgetEnd_called_iff (hchat : round.reply.chat = .ok reply) (hcalls : reply.toolCalls ≠ [])
    (h : r.Open) :
    BudgetEnd (some round) (r.conclude true) ↔ KeepsBudgetEnd (some round) (r.content = "") := by
  rw [budgetEnd_ok_iff hchat,keepsBudgetEnd_ok_iff hchat,and_iff_left (fun hnil => absurd hnil hcalls)]
  constructor
  · intro hended _
    by_contra hsaid
    have hreached := (hended.mpr (.inl hcalls)).1
    rw [conclude_said true hsaid] at hreached
    exact ne_reached h.outcome hreached
  · intro hsilent
    exact iff_of_true (conclude_reached (hsilent hcalls)) (.inl hcalls)

theorem budgetEnd_answered (hchat : round.reply.chat = .ok reply) (hcalls : reply.toolCalls = [])
    (h : r.Open) (hc : r.content = answerOf reply) :
    BudgetEnd (some round) (r.conclude true) := by
  have hempty : r.content = "" ↔ Wordless reply := by rw [hc,answerOf_eq_empty]
  rw [budgetEnd_ok_iff hchat]
  by_cases hwordless : Wordless reply
  · refine ⟨iff_of_true (conclude_reached (hempty.mpr hwordless)) (.inr hwordless),?_⟩
    intro _ hsays
    exact absurd hwordless hsays
  · rw [conclude_said true (fun hnil => hwordless (hempty.mp hnil))]
    refine ⟨iff_of_false (fun hboth => ne_reached h.outcome hboth.1) ?_,?_⟩
    · exact not_or.mpr ⟨fun hne => hne hcalls,hwordless⟩
    · intro _ _
      exact ⟨h.outcome,h.hasError,hc⟩

end ExecutionResult

namespace Executing

open ExecutionResult

variable {host : Host} {turn : Turn ρ} {st st' : Executing ρ} {round : Round ρ}
variable {reply : ChatResult} {rounds : List (Round ρ)}

theorem open_heard (turn : Turn ρ) (round : Round ρ) (h : st.result.Open) :
    (heard turn round st).result.Open := by
  obtain ⟨-,said,streamed,heq⟩ := heard_only turn round st
  rw [heq]
  exact ⟨h.outcome,h.hasError⟩

theorem open_asking (host : Host) (turn : Turn ρ) (budget : Budgeted) (round : Round ρ)
    (h : st.result.Open) : (asking host turn budget round st).result.Open := by
  have hp : (st.pass turn round.opening).result.Open := by rwa [result_pass]
  unfold asking askWrapUp
  split <;> exact ⟨hp.outcome,hp.hasError⟩

theorem open_noteReply {r : ExecutionResult} (reply : ChatResult) (h : r.Open) :
    (r.noteReply reply).Open := by
  obtain ⟨usage,notes,heq⟩ := noteReply_only r reply
  rw [heq]
  exact ⟨h.outcome,h.hasError⟩

theorem open_runTools (round : Round ρ) (reply : ChatResult) (h : st.result.Open) :
    (runTools host turn round reply st).result.Open := by
  obtain ⟨count,blocked,unaskable,heq⟩ := runTools_counts host turn round reply st
  rw [heq]
  exact ⟨h.outcome,h.hasError⟩

theorem open_answered (h : st.result.Open)
    (hc : callProvider host turn round (asking host turn {} round st) =
      .ok (.answered reply, st')) : st'.result.Open := by
  obtain ⟨other,_,_,rfl⟩ | ⟨_,_,⟨hcalled,_⟩ | ⟨hcalled,_⟩ | ⟨hcalled,_⟩⟩ := callProvider_cases hc
  · exact open_noteReply other (open_heard turn round (open_asking host turn {} round h))
  · cases hcalled
  · cases hcalled
  · cases hcalled

theorem failed_asked (h : st.result.Open)
    (hc : callProvider host turn round (asking host turn {} round st) = .ok (.failed, st')) :
    ∃ what, round.reply.chat = .error what ∧ st'.result.outcome = .completed ∧
      st'.result.hasError = true ∧
      st'.result.errorMessage = "Request failed: " ++ readableError what := by
  obtain ⟨_,_,hcalled,_⟩ | ⟨what,hwhat,⟨hcalled,_⟩ | ⟨hcalled,_⟩ | ⟨_,_,_,rfl⟩⟩ :=
    callProvider_cases hc
  · cases hcalled
  · cases hcalled
  · cases hcalled
  · have hh := open_heard turn round (open_asking host turn {} round h)
    exact ⟨what,hwhat,hh.outcome,rfl,rfl⟩

theorem stopped_asked
    (hc : callProvider host turn round st = .ok (.stopped, st')) : st'.stopAsked turn = true := by
  obtain ⟨_,_,hcalled,_⟩ | ⟨_,_,⟨_,hstop,rfl⟩ | ⟨hcalled,_⟩ | ⟨hcalled,_⟩⟩ := callProvider_cases hc
  · cases hcalled
  · exact hstop
  · cases hcalled
  · cases hcalled

theorem abandoned_asked
    (hc : callProvider host turn round st = .ok (.abandoned, st')) : round.Abandoned := by
  obtain ⟨_,_,hcalled,_⟩ | ⟨what,hwhat,⟨hcalled,_⟩ | ⟨_,_,hdown,_⟩ | ⟨hcalled,_⟩⟩ :=
    callProvider_cases hc
  · cases hcalled
  · cases hcalled
  · exact ⟨⟨what,hwhat⟩,hdown⟩
  · cases hcalled

theorem runToolLoop_spent (rounds : List (Round ρ)) (st : Executing ρ) :
    runToolLoop host turn rounds ⟨true, true⟩ st = conclude ⟨true, true⟩ st := by
  cases rounds <;> simp [runToolLoop,checkBudget]

theorem calledRounds_spent (token cancelled : Bool) (limit : Int) (rounds : List (Round ρ))
    (count : Nat) : calledRounds token limit rounds ⟨true, true⟩ cancelled count = [] := by
  cases rounds <;> simp [calledRounds]

theorem checkBudget_reached (h : turn.budget ≤ st.result.toolCallCount) :
    checkBudget turn {} st = ⟨true, false⟩ := by simp [checkBudget,h]

theorem checkBudget_unreached (h : ¬ turn.budget ≤ st.result.toolCallCount) :
    checkBudget turn {} st = ⟨false, false⟩ := by simp [checkBudget,h]

theorem wrapUpRound_last (hreach : ¬ turn.budget ≤ st.result.toolCallCount)
    (hempty : round.calls.isEmpty = true) :
    wrapUpRound turn.token turn.budget (round :: rounds) st.cancelled st.result.toolCallCount =
      none := (if_neg hreach).trans (if_pos hempty)

theorem wrapUpRound_called (hreach : ¬ turn.budget ≤ st.result.toolCallCount)
    (hc : callProvider host turn round (asking host turn {} round st) = .ok (.answered reply, st'))
    (hempty : ¬ reply.toolCalls.isEmpty = true) :
    wrapUpRound turn.token turn.budget (round :: rounds) st.cancelled st.result.toolCallCount =
      wrapUpRound turn.token turn.budget rounds (runTools host turn round reply st').cancelled
        (runTools host turn round reply st').result.toolCallCount := by
  obtain ⟨hout,hran⟩ := ranOut_asked hc
  rw [hout,hran]
  exact (if_neg hreach).trans (if_neg (calls_asked hc hempty))

theorem budgetEnd_wrapUp (hreach : turn.budget ≤ st.result.toolCallCount) (h : st.result.Open)
    (hret : (runToolLoop host turn (round :: rounds) {} st).1 = .returned)
    (hstop : (runToolLoop host turn (round :: rounds) {} st).2.stopAsked turn = false)
    (hab : ¬ round.Abandoned) :
    BudgetEnd (some round) (runToolLoop host turn (round :: rounds) {} st).2.result ↔
      KeepsBudgetEnd (some round) (st.result.content ++ round.said = "") := by
  cases looped host turn round rounds {} st with
  | spent hover heq =>
      rw [checkBudget_reached hreach] at hover
      cases hover.2
  | threw hover hc heq =>
      rw [heq] at hret
      cases hret
  | stopped hover hc heq =>
      rw [heq] at hstop
      have hasked := stopped_asked hc
      cases hasked.symm.trans hstop
  | abandoned hover hc heq => exact absurd (abandoned_asked hc) hab
  | failed hover hc heq =>
      obtain ⟨what,hwhat,ho,he,hm⟩ := failed_asked h hc
      rw [heq,checkBudget_reached hreach,← (text_asked hc).1]
      exact budgetEnd_failed_iff hwhat ho he hm
  | @answered reply st₁ hover hc hempty heq =>
      have hopen := open_answered h hc
      have hcalls := List.isEmpty_iff.mp hempty
      rw [heq,checkBudget_reached hreach]
      refine iff_of_true ?_ ((keepsBudgetEnd_ok_iff (answered_reply hc)).mpr (absurd hcalls))
      have hanswer : (st₁.result.answer reply).Open := ⟨hopen.outcome,hopen.hasError⟩
      exact budgetEnd_answered (answered_reply hc) hcalls hanswer rfl
  | @called reply st₁ hover hc hempty heq =>
      have hcalls : reply.toolCalls ≠ [] := fun hnil => hempty (List.isEmpty_iff.mpr hnil)
      have htext := (@sameText_runTools ρ host turn round reply st₁).content
      rw [heq,checkBudget_reached hreach]
      rw [Bool.or_true,runToolLoop_spent,← (text_asked hc).1,← htext]
      exact budgetEnd_called_iff (answered_reply hc) hcalls
        (open_runTools round reply (open_answered h hc))

theorem budgetEnd_runToolLoop (h : st.result.Open)
    (hret : (runToolLoop host turn rounds {} st).1 = .returned)
    (hstop : (runToolLoop host turn rounds {} st).2.stopAsked turn = false)
    (hab : ∀ round ∈ calledRounds turn.token turn.budget rounds {} st.cancelled
      st.result.toolCallCount, ¬ round.Abandoned) :
    BudgetEnd (wrapUpRound turn.token turn.budget rounds st.cancelled st.result.toolCallCount)
        (runToolLoop host turn rounds {} st).2.result ↔
      KeepsBudgetEnd (wrapUpRound turn.token turn.budget rounds st.cancelled
          st.result.toolCallCount)
        (st.result.content = "" ∧ Silent (calledRounds turn.token turn.budget rounds {} st.cancelled
          st.result.toolCallCount)) := by
  induction rounds generalizing st with
  | nil =>
      simp only [runToolLoop] at hret
      split at hret
      · next hover => cases hover.2
      · cases hret
  | cons round rounds ih =>
      by_cases hreach : turn.budget ≤ st.result.toolCallCount
      · have hwrap : wrapUpRound turn.token turn.budget (round :: rounds) st.cancelled
            st.result.toolCallCount = some round := if_pos hreach
        have honly : calledRounds turn.token turn.budget (round :: rounds) {} st.cancelled
            st.result.toolCallCount = [round] := by
          simp [calledRounds,hreach,calledRounds_spent]
        rw [honly] at hab ⊢
        rw [hwrap,budgetEnd_wrapUp hreach h hret hstop (hab round (List.mem_singleton.mpr rfl)),
          String.append_eq_empty_iff]
        simp only [Silent,List.forall_mem_singleton]
      · have hbudget := checkBudget_unreached hreach
        cases looped host turn round rounds {} st with
        | spent hover heq =>
            rw [hbudget] at hover
            cases hover.1
        | threw hover hc heq =>
            rw [heq] at hret
            cases hret
        | stopped hover hc heq =>
            rw [heq] at hstop
            have hasked := stopped_asked hc
            cases hasked.symm.trans hstop
        | abandoned hover hc heq =>
            rw [calledRounds_last hover (calls_of_failed hc (by simp))] at hab
            exact absurd (abandoned_asked hc) (hab round (List.mem_singleton.mpr rfl))
        | failed hover hc heq =>
            obtain ⟨_,_,ho,_⟩ := failed_asked h hc
            rw [wrapUpRound_last hreach (calls_of_failed hc (by simp)),heq,hbudget]
            exact iff_of_true (budgetEnd_unasked ho) (keepsBudgetEnd_none _)
        | @answered reply st₁ hover hc hempty heq =>
            have hcalls : round.calls.isEmpty = true := by
              rw [calls_eq (answered_reply hc)]
              exact hempty
            have ho : (st₁.result.answer reply).outcome = .completed := (open_answered h hc).outcome
            rw [wrapUpRound_last hreach hcalls,heq,hbudget]
            exact iff_of_true (budgetEnd_unasked ho) (keepsBudgetEnd_none _)
        | @called reply st₁ hover hc hempty heq =>
            have hrest := @calledRounds_called ρ host turn st st₁ round reply rounds {} hover hc hempty
            rw [hbudget] at heq hrest
            rw [heq] at hret hstop
            rw [hrest] at hab ⊢
            have hmain := ih (open_runTools round reply (open_answered h hc)) hret hstop
              (fun r hr => hab r (List.mem_cons_of_mem _ hr))
            rw [wrapUpRound_called hreach hc hempty,heq]
            refine hmain.trans ?_
            rw [(sameText_runTools round reply st₁).content,(text_asked hc).1,
              String.append_eq_empty_iff,and_assoc]
            simp only [Silent,List.forall_mem_cons]
            rfl

theorem stopAsked_runToolLoop (rounds : List (Round ρ)) (budget : Budgeted)
    (h : st.stopAsked turn = true) :
    (runToolLoop host turn rounds budget st).2.stopAsked turn = true := by
  induction rounds generalizing budget st with
  | nil =>
      simp only [runToolLoop]
      split <;> exact h
  | cons round rounds ih =>
      have hasked : ∀ {called : Called} {st₁ : Executing ρ},
          callProvider host turn round (asking host turn budget round st) = .ok (called, st₁) →
          st₁.stopAsked turn = true := by
        intro called st₁ hc
        rw [stopAsked,(paces_asked hc).1]
        exact round.stopped_opened h
      cases looped host turn round rounds budget st with
      | spent hover heq =>
          rw [heq]
          exact h
      | threw hover hc heq =>
          have hopen := (paces_opened host turn (checkBudget turn budget st) round.opening st).cancelled
          rw [heq,stopAsked,asking,hopen]
          exact @Flags.stopped_pass ρ turn.token ⟨st.cancelled, ""⟩ round.opening h
      | failed hover hc heq =>
          rw [heq]
          have hs := hasked hc
          exact hs
      | stopped hover hc heq =>
          rw [heq]
          have hs := hasked hc
          exact hs
      | abandoned hover hc heq =>
          rw [heq]
          have hs := hasked hc
          exact hs
      | answered hover hc hempty heq =>
          rw [heq]
          have hs := hasked hc
          exact hs
      | @called reply st₁ hover hc hempty heq =>
          rw [heq]
          refine ih _ ?_
          rw [stopAsked,(ranOut_asked hc).1]
          exact round.stopped_ranOut (.inl h)

-- Every round that is not the last makes at least one call, so the budget bounds the rounds.
theorem returned_runToolLoop (hlong : (turn.budget - st.result.toolCallCount).toNat < rounds.length)
    (hthrow : ∀ what, (runToolLoop host turn rounds {} st).1 ≠ .threw what)
    (hstop : (runToolLoop host turn rounds {} st).2.stopAsked turn = false) :
    (runToolLoop host turn rounds {} st).1 = .returned := by
  induction rounds generalizing st with
  | nil => exact absurd hlong (Nat.not_lt_zero _)
  | cons round rounds ih =>
      cases looped host turn round rounds {} st with
      | spent hover heq => rw [heq]; rfl
      | threw hover hc heq => exact absurd (by rw [heq]) (hthrow _)
      | failed hover hc heq => rw [heq]; rfl
      | stopped hover hc heq => rw [heq]
      | abandoned hover hc heq => rw [heq]
      | answered hover hc hempty heq => rw [heq]; rfl
      | @called reply st₁ hover hc hempty heq =>
          by_cases hreach : turn.budget ≤ st.result.toolCallCount
          · rw [heq,checkBudget_reached hreach,Bool.or_true,runToolLoop_spent]
            rfl
          · have hcalls : round.calls ≠ [] :=
              fun hnil => calls_asked hc hempty (List.isEmpty_iff.mpr hnil)
            obtain ⟨hout,hran⟩ := ranOut_asked hc
            rw [checkBudget_unreached hreach] at heq
            rw [heq] at hthrow hstop ⊢
            have hall : ¬ (round.ranOut turn.token st.cancelled).ran < round.calls.length := by
              intro hlt
              have hafter : (runTools host turn round reply st₁).stopAsked turn = true := by
                rw [stopAsked,hout]
                exact round.stopped_ranOut (.inr hlt)
              cases (stopAsked_runToolLoop rounds _ hafter).symm.trans hstop
            have hpos := List.length_pos_iff.mpr hcalls
            refine ih ?_ hthrow hstop
            rw [hran]
            simp only [List.length_cons] at hlong
            omega

theorem budget_outcome_iff (hresult : st.result = {})
    (hlong : turn.budget.toNat < rounds.length)
    (hthrow : ∀ what, (runToolLoop host turn rounds {} st).1 ≠ .threw what)
    (hstop : (runToolLoop host turn rounds {} st).2.stopAsked turn = false)
    (hab : ∀ round ∈ calledRounds turn.token turn.budget rounds {} st.cancelled 0,
      ¬ round.Abandoned) :
    (runToolLoop host turn rounds {} st).1 = .returned ∧
      (BudgetEnd (wrapUpRound turn.token turn.budget rounds st.cancelled 0)
          (runToolLoop host turn rounds {} st).2.result ↔
        KeepsBudgetEnd (wrapUpRound turn.token turn.budget rounds st.cancelled 0)
          (Silent (calledRounds turn.token turn.budget rounds {} st.cancelled 0))) := by
  have hopen : st.result.Open := by
    rw [hresult]
    exact ⟨rfl,rfl⟩
  have hcount : st.result.toolCallCount = 0 := by rw [hresult]
  have hcontent : st.result.content = "" := by rw [hresult]
  have hrounds : (turn.budget - st.result.toolCallCount).toNat < rounds.length := by
    rw [hcount]
    simpa using hlong
  have hret := returned_runToolLoop hrounds hthrow hstop
  rw [← hcount] at hab
  have hmain := budgetEnd_runToolLoop hopen hret hstop hab
  simp only [hcount,hcontent,true_and] at hmain
  exact ⟨hret,hmain⟩

def looking (id said : String) : Round Empty where
  reply := .streamed [.content said, .toolCall (Runtime.bashCall id)] "" {}
  steps _ := { answer := ⟨.ok "ran", ⟨.ok "", .ok ""⟩⟩ }

def wrappedUp : Round Empty where
  reply := .streamed [.content "wrapped up"] "" {}
  steps _ := { answer := ⟨.ok "", ⟨.ok "", .ok ""⟩⟩ }

def refused : Round Empty where
  reply := .threw [] "HTTP 500"
  steps _ := { answer := ⟨.ok "", ⟨.ok "", .ok ""⟩⟩ }

def oneCall : Turn Empty := { Runtime.servingC.turn true (fun c _ => c) with budget := 1 }

def oneCallTurn (rounds : List (Round Empty)) : Exit × Executing Empty :=
  runToolLoop Runtime.boardSite.host oneCall rounds {}
    (Runtime.servingC.asked Runtime.boardSite.host "go")

theorem budget_outcome_wrapped_up :
    (oneCallTurn [looking "c1" "Looking.", wrappedUp]).1 = .returned ∧
      BudgetEnd (wrapUpRound true 1 [looking "c1" "Looking.", wrappedUp] false 0)
        (oneCallTurn [looking "c1" "Looking.", wrappedUp]).2.result := by
  have hreturned : (oneCallTurn [looking "c1" "Looking.", wrappedUp]).1 = .returned := by decide
  have hends := @budget_outcome_iff Empty Runtime.boardSite.host oneCall
    (Runtime.servingC.asked Runtime.boardSite.host "go") [looking "c1" "Looking.", wrappedUp] rfl
    (by decide) (fun what hthrew => Exit.noConfusion (hreturned.symm.trans hthrew)) (by decide)
    (by decide)
  have hwrap : wrapUpRound oneCall.token oneCall.budget [looking "c1" "Looking.", wrappedUp]
    (Runtime.servingC.asked Runtime.boardSite.host "go").cancelled 0 = some wrappedUp := rfl
  have hshown : wrapUpRound true 1 [looking "c1" "Looking.", wrappedUp] false 0 =
    some wrappedUp := rfl
  rw [hwrap] at hends
  rw [hshown]
  exact ⟨hends.1,hends.2.mpr ((keepsBudgetEnd_ok_iff rfl).mpr (absurd rfl))⟩

theorem streamed_text_hides_spent_budget :
    (oneCallTurn [looking "c1" "", looking "c2" "Looking."]).1 = .returned ∧
      (oneCallTurn [looking "c1" "", looking "c2" "Looking."]).2.stopAsked oneCall = false ∧
      ¬ BudgetEnd (wrapUpRound true 1 [looking "c1" "", looking "c2" "Looking."] false 0)
        (oneCallTurn [looking "c1" "", looking "c2" "Looking."]).2.result ∧
      ¬ BudgetEnd (wrapUpRound true 1 [looking "c1" "", refused] false 0)
        (oneCallTurn [looking "c1" "", refused]).2.result := by
  refine ⟨by decide,by decide,fun h => ?_,fun h => ?_⟩
  · have hreached := (h.reached.mpr ⟨looking "c2" "Looking.",rfl,_,rfl,.inl (by decide)⟩).1
    exact absurd hreached (by decide)
  · exact absurd (h.failed refused rfl "HTTP 500" rfl).1 (by decide)

end Executing

end PuCli
