import PuCli.Runtime.BudgetOutcome
import PuCli.Runtime.Chats

namespace PuCli

variable {ρ : Type}

namespace Executing

variable {host : Host} {turn : Turn ρ} {st st' : Executing ρ} {round : Round ρ}
variable {rounds : List (Round ρ)} {budget : Budgeted} {reply : ChatResult} {bound : Nat}

-- Chat throws when it is entered with the turn's token already set.
def Refuses (turn : Turn ρ) (chats : List (Executing ρ × Round ρ)) : Prop :=
  ∀ chat ∈ chats, chat.1.stopAsked turn = true → chat.2.Failed

def requestPath (host : Host) (turn : Turn ρ) (st : Executing ρ) :
    Except String (List ChatMessage) :=
  buildRequestPath host.text st.conversation.graph ⟨turn.systemPrompt, host.environment⟩

structure Ends (host : Host) (turn : Turn ρ) (rounds : List (Round ρ)) (budget : Budgeted)
    (st : Executing ρ) (bound : Nat) : Prop where
  chats : (chatted host turn rounds budget st).length ≤ bound
  leaves : (runToolLoop host turn rounds budget st).1 = .returned ∨
    ∃ what, (runToolLoop host turn rounds budget st).1 = .threw what ∧
      requestPath host turn (runToolLoop host turn rounds budget st).2 = .error what

theorem callProvider_error {what : String}
    (hc : callProvider host turn round st = .error what) :
    requestPath host turn st = .error what := by
  unfold callProvider at hc
  cases hp : buildRequestPath host.text st.conversation.graph
      ⟨turn.systemPrompt, host.environment⟩ with
  | error other =>
      rw [hp] at hc
      obtain rfl : other = what := Except.error.inj hc
      exact hp
  | ok path =>
      rw [hp] at hc
      dsimp only [bind,Except.bind] at hc
      split at hc
      · cases hc
      · split at hc
        · cases hc
        · split at hc <;> cases hc

theorem ends_spent (rounds : List (Round ρ)) (st : Executing ρ) :
    Ends host turn rounds ⟨true, true⟩ st 0 where
  chats := by
    cases rounds with
    | nil => exact Nat.le_refl 0
    | cons round rounds =>
        rw [chatted_spent ⟨rfl,rfl⟩]
        exact Nat.le_refl 0
  leaves := by
    rw [runToolLoop_spent]
    exact .inl rfl

theorem ends_cons (hover : ¬ ((checkBudget turn budget st).reached ∧
      (checkBudget turn budget st).wrapUpAsked))
    (hnext : ∀ reply st', callProvider host turn round (asking host turn budget round st) =
        .ok (.answered reply, st') → ¬ reply.toolCalls.isEmpty = true →
      Ends host turn rounds ⟨(checkBudget turn budget st).reached,
        budget.wrapUpAsked || (checkBudget turn budget st).reached⟩
        (runTools host turn round reply st') bound) :
    Ends host turn (round :: rounds) budget st (bound + 1) := by
  cases looped host turn round rounds budget st with
  | spent h heq => exact absurd h hover
  | threw _ hc heq =>
      constructor
      · rw [chatted_threw hover hc]
        exact Nat.zero_le _
      · rw [heq]
        exact .inr ⟨_,rfl,callProvider_error hc⟩
  | failed _ hc heq =>
      constructor
      · rw [chatted_unanswered hover hc (by simp)]
        exact Nat.le_add_left 1 bound
      · rw [heq]
        exact .inl rfl
  | stopped _ hc heq =>
      constructor
      · rw [chatted_unanswered hover hc (by simp)]
        exact Nat.le_add_left 1 bound
      · rw [heq]
        exact .inl rfl
  | abandoned _ hc heq =>
      constructor
      · rw [chatted_unanswered hover hc (by simp)]
        exact Nat.le_add_left 1 bound
      · rw [heq]
        exact .inl rfl
  | answered _ hc hempty heq =>
      constructor
      · rw [chatted_answered hover hc hempty]
        exact Nat.le_add_left 1 bound
      · rw [heq]
        exact .inl rfl
  | called _ hc hempty heq =>
      obtain ⟨hchats,hleaves⟩ := hnext _ _ hc hempty
      constructor
      · rw [chatted_called hover hc hempty]
        exact Nat.succ_le_succ hchats
      · rw [heq]
        exact hleaves

theorem stopAsked_asking (budget : Budgeted) (round : Round ρ) (h : st.stopAsked turn = true) :
    (asking host turn budget round st).stopAsked turn = true := by
  have hopen := (paces_opened host turn (checkBudget turn budget st) round.opening st).cancelled
  rw [stopAsked,asking,hopen]
  exact @Flags.stopped_pass ρ turn.token ⟨st.cancelled, ""⟩ round.opening h

theorem Refuses.unanswered (hr : Refuses turn (chatted host turn (round :: rounds) budget st))
    (hover : ¬ ((checkBudget turn budget st).reached ∧ (checkBudget turn budget st).wrapUpAsked))
    (h : st.stopAsked turn = true)
    (hc : callProvider host turn round (asking host turn budget round st) =
      .ok (.answered reply, st')) : False := by
  have hentered : (asking host turn budget round st, round) ∈
      chatted host turn (round :: rounds) budget st := by
    by_cases hempty : reply.toolCalls.isEmpty = true
    · rw [chatted_answered hover hc hempty]
      exact List.mem_cons_self
    · rw [chatted_called hover hc hempty]
      exact List.mem_cons_self
  obtain ⟨what,hwhat⟩ := hr _ hentered (stopAsked_asking budget round h)
  have hreply : round.reply.chat = .ok reply := answered_reply hc
  rw [hwhat] at hreply
  cases hreply

theorem ends_stopped (h : st.stopAsked turn = true)
    (hr : Refuses turn (chatted host turn (round :: rounds) {} st)) :
    Ends host turn (round :: rounds) {} st 1 := by
  have hover : ¬ ((checkBudget turn {} st).reached ∧ (checkBudget turn {} st).wrapUpAsked) := by
    rintro ⟨-,hasked⟩
    cases hasked
  refine ends_cons hover ?_
  intro reply st' hc _
  exact (hr.unanswered hover h hc).elim

theorem Ends.mono {more : Nat} (h : Ends host turn rounds budget st bound) (hle : bound ≤ more) :
    Ends host turn rounds budget st more := ⟨h.chats.trans hle,h.leaves⟩

-- The calls left in the budget bound the rounds: a round that ran none of its calls was
-- cancelled, and then the next Chat throws.
theorem ends_runToolLoop (hlong : (turn.budget - st.result.toolCallCount).toNat < rounds.length)
    (hr : Refuses turn (chatted host turn rounds {} st)) :
    Ends host turn rounds {} st ((turn.budget - st.result.toolCallCount).toNat + 1) := by
  induction rounds generalizing st with
  | nil => exact absurd hlong (Nat.not_lt_zero _)
  | cons round rounds ih =>
      by_cases hreach : turn.budget ≤ st.result.toolCallCount
      · have hbudget : checkBudget turn {} st = ⟨true, false⟩ := checkBudget_reached hreach
        have hzero : (turn.budget - st.result.toolCallCount).toNat = 0 := by omega
        rw [hzero]
        refine ends_cons (by simp [hbudget]) ?_
        intro reply st' _ _
        rw [hbudget]
        exact ends_spent rounds _
      · have hbudget : checkBudget turn {} st = ⟨false, false⟩ := checkBudget_unreached hreach
        have hover : ¬ ((checkBudget turn {} st).reached ∧ (checkBudget turn {} st).wrapUpAsked) := by
          simp [hbudget]
        refine ends_cons hover ?_
        intro reply st' hc hempty
        have hrest : Refuses turn (chatted host turn rounds {} (runTools host turn round reply st')) := by
          intro chat hchat
          have hcons := @chatted_called ρ host turn st st' round rounds {} reply hover hc hempty
          rw [hbudget] at hcons
          refine hr chat ?_
          rw [hcons]
          exact List.mem_cons_of_mem _ hchat
        rw [hbudget]
        obtain ⟨hout,hran⟩ := ranOut_asked hc
        rw [List.length_cons] at hlong
        by_cases hnone : (round.ranOut turn.token st.cancelled).ran = 0
        · have hcalls := calls_asked hc hempty
          have hpos : 0 < round.calls.length :=
            List.length_pos_iff.mpr (fun hnil => hcalls (List.isEmpty_iff.mpr hnil))
          have hstopped : (runTools host turn round reply st').stopAsked turn = true := by
            rw [stopAsked,hout]
            exact round.stopped_ranOut (.inr (hnone ▸ hpos))
          obtain ⟨next,later,rfl⟩ : ∃ next later, rounds = next :: later :=
            List.exists_cons_of_length_pos (by omega)
          exact (ends_stopped hstopped hrest).mono (by omega)
        · have hless : (turn.budget -
              (runTools host turn round reply st').result.toolCallCount).toNat + 1 ≤
                (turn.budget - st.result.toolCallCount).toNat := by
            rw [hran]
            omega
          exact (ih (by omega) hrest).mono hless

theorem tool_loop_ends (host : Host) (turn : Turn ρ) (rounds : List (Round ρ)) (st : Executing ρ)
    (hlong : turn.budget.toNat < rounds.length)
    (hr : Refuses turn (chatted host turn rounds {} { st with result := {} })) :
    let started := { st with result := {} }
    ((chatted host turn rounds {} started).length : Int) ≤ max turn.budget 0 + 1 ∧
      ((runToolLoop host turn rounds {} started).1 = .returned ∨
        ∃ what, (runToolLoop host turn rounds {} started).1 = .threw what ∧
          requestPath host turn (runToolLoop host turn rounds {} started).2 = .error what) := by
  intro started
  have hcount : (turn.budget - started.result.toolCallCount).toNat = turn.budget.toNat := by
    change (turn.budget - (0 : Nat)).toNat = _
    simp
  have hends := @ends_runToolLoop ρ host turn started rounds (by rwa [hcount]) hr
  rw [hcount] at hends
  have hchats := hends.chats
  exact ⟨by omega,hends.leaves⟩

instance (turn : Turn ρ) (chats : List (Executing ρ × Round ρ)) : Decidable (Refuses turn chats) :=
  inferInstanceAs (Decidable (∀ chat ∈ chats, _))

-- Cancelled before its first call ran, and asked once more.
theorem tool_loop_ends_cancelled :
    let started : Executing Empty := Runtime.servingC.asked Runtime.boardSite.host "go"
    let rounds := [Runtime.cancelling true false, Runtime.cutOff]
    ((chatted Runtime.boardSite.host oneCall rounds {} started).length : Int) ≤ max 1 0 + 1 ∧
      ((runToolLoop Runtime.boardSite.host oneCall rounds {} started).1 = .returned ∨
        ∃ what, (runToolLoop Runtime.boardSite.host oneCall rounds {} started).1 = .threw what ∧
          requestPath Runtime.boardSite.host oneCall
            (runToolLoop Runtime.boardSite.host oneCall rounds {} started).2 = .error what) :=
  tool_loop_ends Runtime.boardSite.host oneCall [Runtime.cancelling true false, Runtime.cutOff]
    (Runtime.servingC.asked Runtime.boardSite.host "go") (by decide) (by decide)

def tornPage (callId id : String) (rank : Nat) : MessagePayload :=
  .tool ⟨callId, "execute_bash", "\x7b\"success\":true,\"output\":", some ⟨"s1", id, rank⟩⟩

def tornPages : Conversation :=
  ⟨(MessageGraph.empty.appendAfterLeaf "n1" (tornPage "c1" "o1" 1) "").appendAfterLeaf "n2"
    (tornPage "c2" "o2" 2) ""⟩

-- The older page of one source was saved cut off, so the receipt that replaces it throws.
theorem torn_page_leaves_loop :
    Conversation.deserialize tornPages.serialize = some tornPages ∧
      Refuses oneCall
        (chatted Runtime.boardSite.host oneCall [wrappedUp, wrappedUp] {}
          { conversation := tornPages, drawn := 2 }) ∧
      (runToolLoop Runtime.boardSite.host oneCall [wrappedUp, wrappedUp] {}
        { conversation := tornPages, drawn := 2 }).1 ≠ .returned :=
  ⟨rfl,by decide,by decide⟩

end Executing

end PuCli
