import PuCli.Runtime.LoopEnds
import PuCli.Runtime.SettledCalls
import PuCli.Runtime.TurnCost
import PuCli.Runtime.UsageTotal

namespace PuCli

open MessageGraph

variable {ρ : Type}

def MessageNode.FromAssistant (n : MessageNode) : Prop := ∃ p, n.payload = .assistant p

theorem fromAssistant_completeRecordOf {n : MessageNode} (id : String) (h : n.FromAssistant) :
    (completeRecordOf id n).FromAssistant := by
  obtain ⟨p,hp⟩ := h
  unfold completeRecordOf
  rw [hp]
  exact ⟨_,rfl⟩

theorem fromAssistant_completeAll {n : MessageNode} (ids : List String) (h : n.FromAssistant) :
    (completeAll ids n).FromAssistant := by
  induction ids generalizing n with
  | nil => exact h
  | cons id ids ih => exact ih (fromAssistant_completeRecordOf id h)

theorem fromAssistant_interruptNode {n : MessageNode} (h : n.FromAssistant) :
    (interruptNode n).FromAssistant := by
  obtain ⟨p,hp⟩ := h
  unfold interruptNode
  rw [hp]
  exact ⟨_,rfl⟩

section LastAssistant

variable {ns ms : List MessageNode} {m : MessageNode}

theorem lastAssistant_concat_of (h : m.FromAssistant) : lastAssistant (ns ++ [m]) = m.id := by
  obtain ⟨p,hp⟩ := h
  rw [lastAssistant,List.foldl_concat,hp]

theorem lastAssistant_concat_not (h : ¬ m.FromAssistant) :
    lastAssistant (ns ++ [m]) = lastAssistant ns := by
  rw [lastAssistant,List.foldl_concat]
  cases hp : m.payload with
  | assistant p => exact absurd ⟨p,hp⟩ h
  | _ => rfl

theorem lastAssistant_append_none (h : ∀ m ∈ ms, ¬ m.FromAssistant) :
    lastAssistant (ns ++ ms) = lastAssistant ns := by
  induction ms using List.reverseRecOn with
  | nil => rw [List.append_nil]
  | append_singleton ms m ih =>
      have hm : ¬ m.FromAssistant := h m (by simp)
      have hms : ∀ m ∈ ms, ¬ m.FromAssistant := fun m hm => h m (List.mem_append_left _ hm)
      rw [← List.append_assoc,lastAssistant_concat_not hm,ih hms]

theorem lastAssistant_append_some (h : ∃ m ∈ ms, m.FromAssistant) :
    lastAssistant (ns ++ ms) = lastAssistant ms ∧
      lastAssistant ms ∈ ms.map MessageNode.id := by
  induction ms using List.reverseRecOn with
  | nil =>
      obtain ⟨m,hm,_⟩ := h
      cases hm
  | append_singleton ms m ih =>
      by_cases hm : m.FromAssistant
      · rw [← List.append_assoc,lastAssistant_concat_of hm,lastAssistant_concat_of hm]
        exact ⟨rfl,by simp⟩
      · have hms : ∃ m ∈ ms, m.FromAssistant := by
          obtain ⟨n,hn,hfrom⟩ := h
          rcases List.mem_append.mp hn with hn | hn
          · exact ⟨n,hn,hfrom⟩
          · rw [List.mem_singleton.mp hn] at hfrom
            exact absurd hfrom hm
        obtain ⟨hsame,hmem⟩ := ih hms
        rw [← List.append_assoc,lastAssistant_concat_not hm,lastAssistant_concat_not hm]
        exact ⟨hsame,by rw [List.map_append]; exact List.mem_append_left _ hmem⟩

end LastAssistant

theorem ids_receiptNodes {newId : Nat → MessageId} {parent : MessageId}
    {calls : List ToolCallRecord} {id : MessageId}
    (h : id ∈ (receiptNodes parent newId calls).map MessageNode.id) : ∃ i, id = newId i := by
  induction calls generalizing newId parent with
  | nil => cases h
  | cons call calls ih =>
      rw [receiptNodes,List.map_cons,List.mem_cons] at h
      rcases h with rfl | h
      · exact ⟨0,rfl⟩
      · obtain ⟨i,hi⟩ := ih h
        exact ⟨i + 1,hi⟩

namespace Executing

variable {host : Host} {turn : Turn ρ} {st st' : Executing ρ} {round : Round ρ}
variable {rounds : List (Round ρ)} {budget : Budgeted} {reply : ChatResult} {usage : TokenUsage}
variable {old : List MessageId} {start : Nat}

-- Every node of the chain is an older one or has an id drawn since the start.
structure Drawn (host : Host) (old : List MessageId) (start : Nat) (st : Executing ρ) : Prop where
  ready : Ready host st
  started : start ≤ st.drawn
  ids : ∀ id ∈ st.chain.map MessageNode.id, id ∈ old ∨ ∃ i, id = host.newId (start + i)

theorem Drawn.of_eq (h : Drawn host old start st) (hc : st'.conversation = st.conversation)
    (hd : st'.drawn = st.drawn) : Drawn host old start st' := by
  refine ⟨h.ready.of_eq hc hd,hd ▸ h.started,?_⟩
  rw [chain,hc]
  exact h.ids

theorem Drawn.append (h : Drawn host old start st) (msg : ChatMessage) :
    Drawn host old start (st.append host msg) := by
  refine ⟨h.ready.append msg,h.started.trans (Nat.le_succ _),?_⟩
  have hids := (completesOne_answerIn (toPayload host.text msg) st.chain).ids
  intro id hid
  rw [chain_append h.ready,List.map_append,hids] at hid
  rcases List.mem_append.mp hid with hid | hid
  · exact h.ids id hid
  · refine .inr ⟨st.drawn - start,?_⟩
    have hsum : start + (st.drawn - start) = st.drawn := Nat.add_sub_of_le h.started
    rw [hsum]
    exact List.mem_singleton.mp hid

theorem Drawn.sealCalls (h : Drawn host old start st) :
    Drawn host old start (st.sealCalls host) := by
  rcases List.eq_nil_or_concat st.chain with hnil | ⟨ns,n,hns⟩
  · have hsame := sealCalls_of_chain_eq_nil h.ready hnil
    exact h.of_eq hsame.conversation hsame.drawn
  · rw [List.concat_eq_append] at hns
    obtain ⟨hchain,hdrawn⟩ := chain_sealCalls h.ready hns
    refine ⟨h.ready.sealCalls,?_,?_⟩
    · rw [hdrawn]
      exact h.started.trans (Nat.le_add_right _ _)
    · intro id hid
      rw [hchain,List.map_append,List.map_cons,(alike_interruptNode n).id] at hid
      have hold : id ∈ st.chain.map MessageNode.id ∨ id ∈ (receiptNodes st.leaf
          (fun i => host.newId (st.drawn + i)) (unrun n.payload.records)).map MessageNode.id := by
        rw [hns,List.map_append,List.map_singleton]
        simpa [or_assoc] using hid
      rcases hold with hid | hid
      · exact h.ids id hid
      · obtain ⟨i,hi⟩ := ids_receiptNodes hid
        refine .inr ⟨st.drawn - start + i,?_⟩
        have hsum : start + (st.drawn - start + i) = st.drawn + i := by
          have := h.started
          omega
        rw [hsum]
        exact hi

theorem steady_drawn (hi : turn.Idle) : Steady host turn (Drawn host old start) where
  same h hs := h.of_eq hs.conversation hs.drawn
  append msg h := h.append msg
  sealCalls h := h.sealCalls
  serve request h := h.of_eq (hi _ request) rfl

theorem drawn_execute (hi : turn.Idle) (h : Ready host st) (script : Script ρ) (input : String) :
    Drawn host (st.chain.map MessageNode.id) st.drawn (execute host turn script input st).2 := by
  have hstart : Drawn host (st.chain.map MessageNode.id) st.drawn st :=
    ⟨h,Nat.le_refl _,fun _ hid => .inl hid⟩
  exact (steady_drawn hi).execute script input (hstart.append _)

theorem Drawn.fresh (h : Ready host st) {new : List MessageNode} {id : MessageId}
    (hd : Drawn host (st.chain.map MessageNode.id) st.drawn st')
    (hc : st'.chain = st.chain ++ new) (hid : id ∈ new.map MessageNode.id) :
    st.conversation.graph.Fresh id := by
  have hnodup : (st'.chain.map MessageNode.id).Nodup := chain_ids_nodup hd.ready.sound
  have hmem : id ∈ st'.chain.map MessageNode.id := by
    rw [hc,List.map_append]
    exact List.mem_append_right _ hid
  rw [hc,List.map_append] at hnodup
  rcases hd.ids id hmem with hold | ⟨i,rfl⟩
  · exact absurd rfl ((List.nodup_append.mp hnodup).2.2 id hold id hid)
  · exact h.supply.fresh i

theorem callProvider_answered {path : List ChatMessage} (hp : requestPath host turn st = .ok path)
    (hr : round.reply.chat = .ok reply) :
    callProvider host turn round st = .ok (.answered reply, answeredBy turn (st, round) reply) := by
  unfold requestPath at hp
  unfold callProvider
  rw [hp]
  dsimp only [bind,Except.bind]
  rw [hr]
  rfl

theorem requestPath_of_called {called : Called}
    (hc : callProvider host turn round st = .ok (called, st')) :
    ∃ path, requestPath host turn st = .ok path := by
  cases hp : requestPath host turn st with
  | ok path => exact ⟨path,rfl⟩
  | error what =>
      unfold requestPath at hp
      unfold callProvider at hc
      rw [hp] at hc
      cases hc

-- The reply calls nothing and says nothing, and still reports what it cost.
structure SilentReply (host : Host) (turn : Turn ρ) (st : Executing ρ) (round : Round ρ)
    (reply : ChatResult) (usage : TokenUsage) : Prop where
  replied : round.reply.chat = .ok reply
  calls : reply.toolCalls = []
  wordless : Wordless reply
  reported : reply.usage = some usage
  readable : ∃ path, requestPath host turn (asking host turn {} round st) = .ok path

def BeginsSilent (host : Host) (turn : Turn ρ) (rounds : List (Round ρ)) (st : Executing ρ) : Prop :=
  ∃ round ∈ rounds.head?, ∃ reply usage, SilentReply host turn st round reply usage

theorem reported_asked (hc : callProvider host turn round st = .ok (.answered reply, st')) :
    round.reported = reply.usage := by
  rw [Round.reported,answered_reply hc]

theorem unreported_asked {called : Called}
    (hc : callProvider host turn round st = .ok (called, st'))
    (hf : ∀ reply, called ≠ .answered reply) : round.reported = none := by
  obtain ⟨reply,_,he,_⟩ | ⟨what,hwhat,_⟩ := callProvider_cases hc
  · exact absurd he (hf reply)
  · rw [Round.reported,hwhat]

theorem not_spent_first :
    ¬ ((checkBudget turn {} st).reached ∧ (checkBudget turn {} st).wrapUpAsked) := by
  rintro ⟨-,hasked⟩
  cases hasked

theorem fromAssistant_roundNodes :
    ∃ n ∈ roundNodes host turn round reply st, n.FromAssistant := by
  have hcall : (callNode host reply st).FromAssistant := ⟨_,rfl⟩
  unfold roundNodes
  split
  · exact ⟨_,List.mem_cons_self,fromAssistant_interruptNode hcall⟩
  · exact ⟨_,List.mem_cons_self,fromAssistant_completeAll _ hcall⟩

theorem chain_passed (hi : turn.Idle) (w : Window ρ) (st : Executing ρ) :
    (st.pass turn w).chain = st.chain := by
  rw [chain,(pass_unmoved (quiet_of_idle hi (st.pass turn w))).1]
  rfl

-- The answer kept at the end of a turn is an assistant node.
theorem keepAnswer_chain (h : Ready host st) :
    (st.result.hasError = true ∨ st.result.content = "") ∧ st.keepAnswer host = st ∨
      ∃ n, (st.keepAnswer host).chain = st.chain ++ [n] ∧ n.FromAssistant := by
  unfold keepAnswer
  split
  · next hnone => exact .inl ⟨hnone,rfl⟩
  · exact .inr ⟨_,chain_append h (spoken (host.timestamp st.drawn) st.result.content),_,rfl⟩

-- What a turn leaves its usage to be filed under, unless its first reply is silent.
inductive Leaves (old : List MessageNode) (out : Exit × Executing ρ) : Prop
  | unfinished (h : out.1 ≠ .returned)
  | unpriced (h : out.2.result.usage = none)
  | answered (new : List MessageNode) (hc : out.2.chain = old ++ new)
      (h : ∃ n ∈ new, n.FromAssistant)

theorem chain_asking_grows (hi : turn.Idle) (h : Ready host st) {called : Called}
    (hc : callProvider host turn round (asking host turn budget round st) = .ok (called, st')) :
    (∃ more, st'.chain = st.chain ++ more) ∧ Ready host st' := by
  obtain ⟨hchain,-,hready⟩ := chain_asked h hc (quiet_of_idle hi _)
  exact ⟨⟨_,hchain⟩,hready⟩

structure SaysAnswer (host : Host) (old : List MessageNode) (st : Executing ρ) : Prop where
  ready : Ready host st
  chain : ∃ new, st.chain = old ++ new
  clean : st.result.hasError = false
  said : st.result.content ≠ ""

theorem saysAnswer_answered {st₁ : Executing ρ} (budgetReached : Bool) (hready : Ready host st₁)
    {old : List MessageNode} (hchain : ∃ new, st₁.chain = old ++ new) (hopen : st₁.result.Open)
    (hw : ¬ Wordless reply) :
    SaysAnswer host old
      { st₁ with result := (st₁.result.answer reply).conclude budgetReached } := by
  have hsaid : (st₁.result.answer reply).content ≠ "" := fun h => hw (answerOf_eq_empty.mp h)
  have hres := ExecutionResult.conclude_said budgetReached hsaid
  refine ⟨hready.of_eq rfl rfl,hchain,?_,?_⟩
  · rw [hres]
    exact hopen.hasError
  · rw [hres]
    exact hsaid

theorem leaves_called (hi : turn.Idle) (h : Ready host st) {old : List MessageNode}
    (hchain : ∃ lead, st.chain = old ++ lead) (hne : reply.toolCalls ≠ []) (rounds : List (Round ρ))
    (budget : Budgeted) :
    Leaves old (runToolLoop host turn rounds budget (runTools host turn round reply st)) := by
  obtain ⟨lead,hlead⟩ := hchain
  obtain ⟨hran,hready⟩ := runTools_chain h hne
    (quiet_of_idle hi (runTools host turn round reply st))
  obtain ⟨more,hmore⟩ := chain_grows hi rounds budget hready
    (by rw [hran]; exact endsPlain_roundNodes hne _)
  obtain ⟨n,hn,hfrom⟩ := @fromAssistant_roundNodes ρ host turn st round reply
  refine .answered (lead ++ roundNodes host turn round reply st ++ more) (hmore.trans ?_) ⟨n,?_,hfrom⟩
  · rw [hran,hlead]
    simp
  · exact List.mem_append_left _ (List.mem_append_right _ hn)

theorem leaves_runToolLoop (hi : turn.Idle) (h : Ready host st) (hr : st.result = {})
    (hs : ¬ BeginsSilent host turn rounds st) :
    Leaves st.chain (runToolLoop host turn rounds {} st) ∨
      SaysAnswer host st.chain (runToolLoop host turn rounds {} st).2 := by
  have hnone : st.result.usage = none := by rw [hr]
  have hopen : st.result.Open := by
    rw [hr]
    exact ⟨rfl,rfl⟩
  cases rounds with
  | nil =>
      have hrun : runToolLoop host turn [] {} st = (.running, st) := if_neg not_spent_first
      rw [hrun]
      exact .inl (.unfinished (by simp))
  | cons round rounds =>
      have hsilent : ∀ {called st₁}, callProvider host turn round (asking host turn {} round st) =
          .ok (called, st₁) → (∀ reply, called ≠ .answered reply) → st₁.result.usage = none := by
        intro called st₁ hc hf
        rw [usage_asked hc,unreported_asked hc hf]
        exact hnone
      cases looped host turn round rounds {} st with
      | spent hover heq => exact absurd hover not_spent_first
      | threw hover hc heq =>
          rw [heq]
          exact .inl (.unfinished (by simp))
      | failed hover hc heq =>
          rw [heq]
          exact .inl (.unpriced ((usage_conclude _ _).trans (hsilent hc (by simp))))
      | stopped hover hc heq =>
          have husage := hsilent hc (by simp)
          rw [heq]
          exact .inl (.unpriced husage)
      | abandoned hover hc heq =>
          rw [heq]
          exact .inl (.unpriced (hsilent hc (by simp)))
      | @answered reply st₁ hover hc hempty heq =>
          rw [heq]
          cases hu : reply.usage with
          | none =>
              refine .inl (.unpriced ((usage_conclude _ _).trans ?_))
              change st₁.result.usage = none
              rw [usage_asked hc,reported_asked hc,hu]
              exact hnone
          | some usage =>
              have hw : ¬ Wordless reply := by
                intro hw
                exact hs ⟨round,rfl,reply,usage,answered_reply hc,List.isEmpty_iff.mp hempty,hw,hu,
                  requestPath_of_called hc⟩
              obtain ⟨hchain,hready⟩ := chain_asking_grows hi h hc
              exact .inr (saysAnswer_answered _ hready hchain (open_answered hopen hc) hw)
      | @called reply st₁ hover hc hempty heq =>
          obtain ⟨hchain,hready⟩ := chain_asking_grows hi h hc
          rw [heq]
          exact .inl (leaves_called hi hready hchain (by simpa using hempty) rounds _)

theorem result_keepAnswer (host : Host) (st : Executing ρ) :
    (st.keepAnswer host).result = st.result := by
  unfold keepAnswer
  split <;> rfl

theorem Leaves.lead {old lead : List MessageNode} {out : Exit × Executing ρ}
    (h : Leaves (old ++ lead) out) : Leaves old out := by
  cases h with
  | unfinished h => exact .unfinished h
  | unpriced h => exact .unpriced h
  | answered new hc h =>
      obtain ⟨n,hn,hfrom⟩ := h
      refine .answered (lead ++ new) ?_ ⟨n,List.mem_append_right _ hn,hfrom⟩
      rw [hc,List.append_assoc]

theorem Leaves.kept {old : List MessageNode} (h : Leaves old (.returned, st))
    (hready : Ready host st) : Leaves old (.returned, st.keepAnswer host) := by
  cases h with
  | unfinished hne => exact absurd rfl hne
  | unpriced hnone =>
      have hresult := result_keepAnswer host st
      exact .unpriced ((congrArg ExecutionResult.usage hresult).trans hnone)
  | answered new hc h =>
      rcases keepAnswer_chain hready with ⟨-,hsame⟩ | ⟨n,hn,-⟩
      · rw [hsame]
        exact .answered new hc h
      · obtain ⟨m,hm,hfrom⟩ := h
        refine .answered (new ++ [n]) (hn.trans ?_) ⟨m,List.mem_append_left _ hm,hfrom⟩
        rw [← List.append_assoc]
        exact congrArg (· ++ [n]) hc

theorem SaysAnswer.kept {old : List MessageNode} (h : SaysAnswer host old st) :
    Leaves old (.returned, st.keepAnswer host) := by
  obtain ⟨new,hnew⟩ := h.chain
  rcases keepAnswer_chain h.ready with ⟨hsilent,-⟩ | ⟨n,hn,hfrom⟩
  · rcases hsilent with herr | hempty
    · rw [h.clean] at herr
      cases herr
    · exact absurd hempty h.said
  · refine .answered (new ++ [n]) (hn.trans ?_) ⟨n,by simp,hfrom⟩
    rw [hnew,List.append_assoc]

theorem leaves_execute (hi : turn.Idle) (h : Ready host st) (hr : st.result = {})
    (script : Script ρ) (input : String)
    (hs : ¬ BeginsSilent host turn script.rounds (st.append host (question input st.peerOrigin))) :
    Leaves st.chain (execute host turn script input st) := by
  have hasked : (st.append host (question input st.peerOrigin)).chain =
      st.chain ++ [askedNode host input st] := chain_append h (question input st.peerOrigin)
  have hloop := leaves_runToolLoop hi (h.append (question input st.peerOrigin)) hr hs
  have hready := ((follows_asked h input).runToolLoop hi rfl script.rounds {}).ready
  rw [hasked] at hloop
  unfold execute
  dsimp only
  split
  · next st' heq =>
      rw [heq] at hloop hready
      have hchain := chain_passed hi script.leaving st'
      have hresult := result_pass turn script.leaving st'
      obtain ⟨hc,hd⟩ := pass_unmoved (quiet_of_idle hi (st'.pass turn script.leaving))
      have hpassed : Ready host (st'.pass turn script.leaving) := hready.of_eq hc hd
      generalize st'.pass turn script.leaving = left at *
      have hleft : Leaves (st.chain ++ [askedNode host input st]) (.returned, left.keepAnswer host) := by
        rcases hloop with hleaves | hsaid
        · refine Leaves.kept ?_ hpassed
          cases hleaves with
          | unfinished hne => exact absurd rfl hne
          | unpriced hnone => exact .unpriced ((congrArg ExecutionResult.usage hresult).trans hnone)
          | answered new hnew hfrom => exact .answered new (hchain.trans hnew) hfrom
        · refine SaysAnswer.kept ⟨hpassed,?_,hresult ▸ hsaid.clean,hresult ▸ hsaid.said⟩
          obtain ⟨new,hnew⟩ := hsaid.chain
          exact ⟨new,hchain.trans hnew⟩
      exact hleft.lead
  · next hne =>
      refine .unfinished ?_
      intro hret
      exact hne _ (Prod.ext hret rfl)

structure SilentEnd (old : List MessageNode) (reply : ChatResult) (usage : TokenUsage)
    (st : Executing ρ) : Prop where
  chain : ∃ new, st.chain = old ++ new ∧ ∀ n ∈ new, ¬ n.FromAssistant
  usage : st.result.usage = some (addUsage none usage)
  rounds : st.result.rounds = 1
  model : st.result.model = reply.model
  failed : st.result.hasError = true

theorem not_fromAssistant_wrapUpNodes (budget : Budgeted) (st : Executing ρ) :
    ∀ n ∈ wrapUpNodes host budget st, ¬ n.FromAssistant := by
  intro n hn
  unfold wrapUpNodes at hn
  split at hn
  · rw [List.mem_singleton.mp hn]
    rintro ⟨_,hp⟩
    cases hp
  · cases hn

theorem hasError_conclude_empty {r : ExecutionResult} (budgetReached : Bool)
    (hcontent : r.content = "") (hcount : r.toolCallCount = 0) :
    (r.conclude budgetReached).hasError = true := by
  have hblocked : ¬ (0 < r.blockedToolCalls ∧ r.blockedToolCalls = r.toolCallCount) := by omega
  unfold ExecutionResult.conclude
  split
  · rfl
  · rw [if_neg (by simpa [hcontent] using hblocked)]
    split
    · rfl
    · next hsaid => simpa [hcontent,hcount] using hsaid

theorem fields_answeredBy (hr : st.result = {}) (budget : Budgeted) (round : Round ρ)
    (reply : ChatResult) :
    (answeredBy turn (asking host turn budget round st, round) reply).result.rounds = 1 ∧
      (answeredBy turn (asking host turn budget round st, round) reply).result.model = "" ∧
      (answeredBy turn (asking host turn budget round st, round) reply).result.toolCallCount = 0 := by
  have hasking : (asking host turn budget round st).result = { rounds := 1 } := by
    have hp : (st.pass turn round.opening).result = {} := by rw [result_pass,hr]
    unfold asking askWrapUp
    split <;> simp only [append,openRound,hp]
  obtain ⟨-,said,streamed,hheard⟩ := heard_only turn round (asking host turn budget round st)
  rw [hasking] at hheard
  obtain ⟨usage,notes,hnoted⟩ := noteReply_only
    (heard turn round (asking host turn budget round st)).result reply
  rw [answeredBy,hnoted,hheard]
  exact ⟨rfl,rfl,rfl⟩

theorem runToolLoop_answered
    (hover : ¬ ((checkBudget turn budget st).reached ∧ (checkBudget turn budget st).wrapUpAsked))
    (hc : callProvider host turn round (asking host turn budget round st) =
      .ok (.answered reply, st')) (hempty : reply.toolCalls.isEmpty = true) :
    runToolLoop host turn (round :: rounds) budget st =
      conclude ⟨(checkBudget turn budget st).reached, budget.wrapUpAsked ||
        (checkBudget turn budget st).reached⟩ { st' with result := st'.result.answer reply } := by
  have heq : runToolLoop host turn (round :: rounds) budget st = _ := runToolLoop.eq_2 ..
  have hasking : ((st.pass turn round.opening).askWrapUp host
      (checkBudget turn budget st)).openRound = asking host turn budget round st := rfl
  dsimp only at heq
  rw [if_neg hover,hasking,hc] at heq
  exact heq.trans (if_pos hempty)

theorem silent_runToolLoop (hi : turn.Idle) (h : Ready host st) (hr : st.result = {})
    (hs : SilentReply host turn st round reply usage) :
    (runToolLoop host turn (round :: rounds) {} st).1 = .returned ∧
      SilentEnd st.chain reply usage (runToolLoop host turn (round :: rounds) {} st).2 := by
  obtain ⟨path,hpath⟩ := hs.readable
  have hcall := callProvider_answered hpath hs.replied
  have hempty : reply.toolCalls.isEmpty = true := List.isEmpty_iff.mpr hs.calls
  obtain ⟨hrounds,hmodel,hcount⟩ := @fields_answeredBy ρ host turn st hr {} round reply
  obtain ⟨hchain,-,-⟩ := chain_asked h hcall (quiet_of_idle hi _)
  have husage : (answeredBy turn (asking host turn {} round st, round) reply).result.usage =
      some (addUsage none usage) := by
    rw [usage_asked hcall,reported_asked hcall,hs.reported,hr]
    rfl
  rw [runToolLoop_answered not_spent_first hcall hempty]
  generalize answeredBy turn (asking host turn {} round st, round) reply = st₁ at *
  have hsaid : (st₁.result.answer reply).content = "" := answerOf_eq_empty.mpr hs.wordless
  obtain ⟨husage',hrounds',hmodel'⟩ := tally_conclude (st₁.result.answer reply)
    (checkBudget turn {} st).reached
  refine ⟨rfl,⟨_,hchain,not_fromAssistant_wrapUpNodes _ _⟩,husage'.trans husage,
    hrounds'.trans hrounds,hmodel'.trans ?_,hasError_conclude_empty _ hsaid hcount⟩
  change (if reply.model = "" then st₁.result.model else reply.model) = reply.model
  rw [hmodel]
  split
  · next hnone => exact hnone.symm
  · rfl

theorem silent_execute (hi : turn.Idle) (h : Ready host st) (hr : st.result = {})
    {script : Script ρ} (input : String) (hrounds : script.rounds = round :: rounds)
    (hs : SilentReply host turn (st.append host (question input st.peerOrigin)) round reply usage) :
    (execute host turn script input st).1 = .returned ∧
      SilentEnd st.chain reply usage (execute host turn script input st).2 := by
  have hasked : (st.append host (question input st.peerOrigin)).chain =
      st.chain ++ [askedNode host input st] := chain_append h (question input st.peerOrigin)
  obtain ⟨hret,hend⟩ := @silent_runToolLoop ρ host turn _ round rounds reply usage hi
    (h.append (question input st.peerOrigin)) hr hs
  obtain ⟨new,hnew,hplain⟩ := hend.chain
  cases hrun : runToolLoop host turn (round :: rounds) {}
      (st.append host (question input st.peerOrigin)) with
  | mk exit st' =>
      rw [hrun] at hret hend hnew
      obtain rfl : exit = .returned := hret
      have hexec : execute host turn script input st =
          (.returned, (st'.pass turn script.leaving).keepAnswer host) := by
        simp only [execute,hrounds,hrun]
      rw [hexec]
      have hkept : (st'.pass turn script.leaving).keepAnswer host = st'.pass turn script.leaving :=
        if_pos (.inl (by rw [result_pass]; exact hend.failed))
      have hres := result_pass turn script.leaving st'
      refine ⟨rfl,⟨askedNode host input st :: new,?_,?_⟩,?_,?_,?_,?_⟩
      · rw [hkept,chain_passed hi,hnew,hasked]
        simp
      · intro n hn
        rcases List.mem_cons.mp hn with rfl | hn
        · rintro ⟨_,hp⟩
          cases hp
        · exact hplain n hn
      · rw [hkept,hres]
        exact hend.usage
      · rw [hkept,hres]
        exact hend.rounds
      · rw [hkept,hres]
        exact hend.model
      · rw [hkept,hres]
        exact hend.failed

end Executing

section Record

variable {s : Session} {result : ExecutionResult} {backend : Backend} {usage : TokenUsage}

theorem recordTurnUsage_unpriced (h : result.usage = none) :
    recordTurnUsage s result backend = s := by
  unfold recordTurnUsage
  rw [h]

theorem recordTurnUsage_unanswered (h : lastAssistant s.conversation.chain = "") :
    recordTurnUsage s result backend = s := by
  unfold recordTurnUsage
  cases result.usage with
  | none => rfl
  | some usage => exact if_pos h

theorem recordTurnUsage_filed (hu : result.usage = some usage)
    (h : lastAssistant s.conversation.chain ≠ "") :
    recordTurnUsage s result backend =
      { s with
        usage := s.usage.insert (lastAssistant s.conversation.chain)
          (turnUsage (lastAssistant s.conversation.chain) result usage backend) } := by
  have hkey : (turnUsage (lastAssistant s.conversation.chain) result usage backend).nodeId ≠ "" := h
  unfold recordTurnUsage
  rw [hu]
  dsimp only
  rw [if_neg h,UsageLedger.record,if_neg hkey]
  rfl

theorem turnUsage_silent {reply : ChatResult} (nodeId : MessageId) (hrounds : result.rounds = 1)
    (hmodel : result.model = reply.model) :
    turnUsage nodeId result (addUsage none usage) backend =
      turnUsage nodeId { rounds := 1, model := reply.model } usage backend := by
  have hcost : addCost none usage.cost = usage.cost := by
    cases usage.cost <;> rfl
  simp [turnUsage,hrounds,hmodel,addUsage,hcost]

theorem UsageLedger.insert_same {ledger : UsageLedger} {k : String} {entry : TurnUsage}
    (h : ledger[k]? = some entry) : ledger.insert k entry = ledger := by
  ext1 a
  rw [Std.ExtTreeMap.getElem?_insert]
  split
  · next hk => rw [← compare_eq_iff_eq.mp hk,h]
  · rfl

end Record

structure TurnFiled (before after : Session) : Prop where
  kept : ∀ k, before.conversation.graph.find k ≠ none → after.usage[k]? = before.usage[k]?
  added : after.usage = before.usage ∨ ∃ usage : TurnUsage,
    usage.nodeId = lastAssistant
        (after.conversation.chain.drop before.conversation.chain.length) ∧
      usage.nodeId ≠ "" ∧ after.usage = before.usage.insert usage.nodeId usage

section Filed

variable {before after : Session}

theorem turnFiled_same (h : after.usage = before.usage) : TurnFiled before after where
  kept k _ := by rw [h]
  added := .inl h

theorem turnFiled_new {new : List MessageNode} {usage : TurnUsage}
    (hc : after.conversation.chain = before.conversation.chain ++ new)
    (hu : after.usage = before.usage.insert usage.nodeId usage)
    (hid : usage.nodeId = lastAssistant new) (hn : usage.nodeId ≠ "")
    (hnew : before.conversation.graph.find usage.nodeId = none) : TurnFiled before after where
  kept k hk := by
    have hne : ¬ compare usage.nodeId k = .eq := by
      intro hcmp
      rw [← compare_eq_iff_eq.mp hcmp] at hk
      exact hk hnew
    rw [hu,Std.ExtTreeMap.getElem?_insert,if_neg hne]
  added := by
    have hdrop : after.conversation.chain.drop before.conversation.chain.length = new := by
      rw [hc,List.drop_left]
    exact .inr ⟨usage,by rw [hdrop]; exact hid,hn,hu⟩

theorem turnFiled_old_iff {usage : TurnUsage} (h : before.conversation.graph.Sound)
    (hu : after.usage = before.usage.insert usage.nodeId usage)
    (hid : usage.nodeId = lastAssistant before.conversation.chain) (hn : usage.nodeId ≠ "") :
    TurnFiled before after ↔ before.usage[usage.nodeId]? = some usage := by
  constructor
  · intro hf
    have hmem := (lastAssistant_mem before.conversation.chain).resolve_left (hid ▸ hn)
    obtain ⟨n,hmem,hname⟩ := List.mem_map.mp hmem
    have hfind : before.conversation.graph.find usage.nodeId ≠ none := by
      rw [hid,← hname,find_of_mem_chain h hmem]
      simp
    rw [← hf.kept _ hfind,hu,Std.ExtTreeMap.getElem?_insert_self]
  · intro hsame
    refine turnFiled_same ?_
    rw [hu,UsageLedger.insert_same hsame]

end Filed

namespace Runtime

variable {host : Host} {rt : Runtime} {backend : Backend} {turn : Turn ρ} {script : Script ρ}
variable {input : String}

-- The turn's answer is silent, and the entry of an older node is not already what it writes.
def Misfiled (host : Host) (rt : Runtime) (backend : Backend) (turn : Turn ρ)
    (rounds : List (Round ρ)) (input : String) : Prop :=
  let last := lastAssistant rt.current.conversation.chain
  last ≠ "" ∧ ∃ round ∈ rounds.head?, ∃ reply usage,
    Executing.SilentReply host turn
        ((rt.executing : Executing ρ).append host
          (Executing.question input rt.peerOrigin)) round reply usage ∧
      rt.current.usage[last]? ≠
        some (turnUsage last { rounds := 1, model := reply.model } usage backend)

theorem current_runTurn_returned
    (h : (Executing.execute host turn script input rt.executing).1 = .returned) :
    (runTurn host rt backend turn script input).runtime.current =
      recordTurnUsage (rt.keep (Executing.execute host turn script input rt.executing).2).current
        (Executing.execute host turn script input rt.executing).2.result backend := by
  unfold runTurn
  split
  · next st heq =>
      rw [heq]
      rfl
  · next heq =>
      rw [heq] at h
      cases h
  · next heq =>
      rw [heq] at h
      cases h

theorem usage_runTurn_unfinished
    (h : (Executing.execute host turn script input rt.executing).1 ≠ .returned) :
    (runTurn host rt backend turn script input).runtime.current.usage = rt.current.usage := by
  unfold runTurn
  split
  · next st heq =>
      rw [heq] at h
      exact absurd rfl h
  · rfl
  · rfl

theorem turnFiled_leaves (hi : turn.Idle) (h : Executing.Ready host (rt.executing : Executing ρ))
    (hl : Executing.Leaves rt.current.conversation.chain
      (Executing.execute host turn script input rt.executing)) :
    TurnFiled rt.current (runTurn host rt backend turn script input).runtime.current := by
  by_cases hret : (Executing.execute host turn script input rt.executing).1 = .returned
  · have hcurrent := @current_runTurn_returned ρ host rt backend turn script input hret
    cases hl with
    | unfinished hne => exact absurd hret hne
    | unpriced hnone =>
        refine turnFiled_same ?_
        rw [hcurrent,recordTurnUsage_unpriced hnone]
        rfl
    | answered new hc hfrom =>
        obtain ⟨hlast,hmem⟩ := @lastAssistant_append_some rt.current.conversation.chain new hfrom
        have hdrawn := Executing.drawn_execute hi h script input
        obtain ⟨hnamed,hnone⟩ := hdrawn.fresh h hc hmem
        cases hu : (Executing.execute host turn script input rt.executing).2.result.usage with
        | none =>
            refine turnFiled_same ?_
            rw [hcurrent,recordTurnUsage_unpriced hu]
            rfl
        | some usage =>
            rw [← hc] at hlast
            rw [← hlast] at hnamed hnone
            have hfiled := @recordTurnUsage_filed
              (rt.keep (Executing.execute host turn script input rt.executing).2).current
              _ backend usage hu hnamed
            rw [hcurrent,hfiled]
            exact @turnFiled_new rt.current _ new (turnUsage _ _ usage backend) hc rfl hlast hnamed
              hnone
  · exact turnFiled_same (usage_runTurn_unfinished hret)

theorem turnFiled_silent_iff (hi : turn.Idle)
    (h : Executing.Ready host (rt.executing : Executing ρ)) {round : Round ρ}
    {rounds : List (Round ρ)} {reply : ChatResult} {usage : TokenUsage}
    (hrounds : script.rounds = round :: rounds)
    (hs : Executing.SilentReply host turn
      ((rt.executing : Executing ρ).append host (Executing.question input rt.peerOrigin)) round
      reply usage) :
    let last := lastAssistant rt.current.conversation.chain
    TurnFiled rt.current (runTurn host rt backend turn script input).runtime.current ↔
      last = "" ∨ rt.current.usage[last]? =
        some (turnUsage last { rounds := 1, model := reply.model } usage backend) := by
  intro last
  obtain ⟨hret,hend⟩ := Executing.silent_execute hi h rfl input hrounds hs
  obtain ⟨new,hnew,hplain⟩ := hend.chain
  have hcurrent := @current_runTurn_returned ρ host rt backend turn script input hret
  have hlast : lastAssistant (Executing.execute host turn script input rt.executing).2.chain =
      last := by
    rw [hnew]
    exact lastAssistant_append_none hplain
  by_cases hnone : last = ""
  · have hrecord := @recordTurnUsage_unanswered
      (rt.keep (Executing.execute host turn script input rt.executing).2).current
      (Executing.execute host turn script input rt.executing).2.result backend (hlast.trans hnone)
    refine iff_of_true (turnFiled_same ?_) (.inl hnone)
    rw [hcurrent,hrecord]
    rfl
  · have hfiled := @recordTurnUsage_filed
      (rt.keep (Executing.execute host turn script input rt.executing).2).current
      _ backend _ hend.usage (fun hempty => hnone (hlast.symm.trans hempty))
    have hkey : lastAssistant (rt.keep (Executing.execute host turn script input
        rt.executing).2).current.conversation.chain = last := hlast
    rw [turnUsage_silent _ hend.rounds hend.model,hkey] at hfiled
    have hold := @turnFiled_old_iff rt.current
      (runTurn host rt backend turn script input).runtime.current
      (turnUsage last { rounds := 1, model := reply.model } usage backend) h.sound
      (by rw [hcurrent,hfiled]; rfl) rfl hnone
    rw [hold]
    exact ⟨.inr,fun hor => hor.resolve_left hnone⟩

theorem turn_filed_iff {host : Host} {rt : Runtime} {turn : Turn Empty}
    (h : Executing.Ready host (rt.executing : Executing Empty)) (backend : Backend)
    (script : Script Empty) (input : String) :
    TurnFiled rt.current (runTurn host rt backend turn script input).runtime.current ↔
      ¬ Misfiled host rt backend turn script.rounds input := by
  have hi : turn.Idle := fun _ r => r.elim
  by_cases hs : Executing.BeginsSilent host turn script.rounds
      ((rt.executing : Executing Empty).append host (Executing.question input rt.peerOrigin))
  · obtain ⟨round,hhead,reply,usage,hsilent⟩ := hs
    obtain ⟨rounds,hrounds⟩ := List.head?_eq_some_iff.mp hhead
    refine (turnFiled_silent_iff hi h hrounds hsilent).trans ?_
    constructor
    · rintro hor ⟨hlast,round',hhead',reply',usage',hsilent',hdiffers⟩
      obtain rfl : round = round' := Option.some.inj (hhead.symm.trans hhead')
      obtain rfl : reply = reply' :=
        Except.ok.inj (hsilent.replied.symm.trans hsilent'.replied)
      obtain rfl : usage = usage' :=
        Option.some.inj (hsilent.reported.symm.trans hsilent'.reported)
      exact hdiffers (hor.resolve_left hlast)
    · intro hright
      by_cases hlast : lastAssistant rt.current.conversation.chain = ""
      · exact .inl hlast
      · refine .inr ?_
        by_contra hdiffers
        exact hright ⟨hlast,round,hhead,reply,usage,hsilent,hdiffers⟩
  · refine iff_of_true (turnFiled_leaves hi h (Executing.leaves_execute hi h rfl script input hs)) ?_
    rintro ⟨-,round,hhead,reply,usage,hsilent,-⟩
    exact hs ⟨round,hhead,reply,usage,hsilent⟩

def anyCall : Turn Empty := servingC.turn true (fun c _ => c)

theorem turn_filed_one_turn :
    TurnFiled servingC.current (runTurn boardSite.host servingC {} anyCall
        ⟨[Executing.pricedAnswer], {}⟩ "hi").runtime.current ↔
      ¬ Misfiled boardSite.host servingC {} anyCall [Executing.pricedAnswer] "hi" :=
  @turn_filed_iff boardSite.host servingC anyCall ⟨sound_empty,tally_fresh_empty 0⟩ {}
    ⟨[Executing.pricedAnswer], {}⟩ "hi"

def unspoken : Round Empty where
  reply := .whole { usage := some { promptTokens := 5 } }
  steps _ := { answer := ⟨.ok "", ⟨.ok "", .ok ""⟩⟩ }

def answeredOnce : Runtime :=
  (runTurn boardSite.host servingC {} anyCall ⟨[Executing.pricedAnswer], {}⟩ "hi").runtime

-- The second turn answers nothing, and its cost replaces what the first turn's answer cost.
theorem silent_turn_rewrites_answer_cost :
    ¬ TurnFiled answeredOnce.current
      (runTurn boardSite.host answeredOnce {} anyCall ⟨[unspoken], {}⟩ "and?").runtime.current := by
  intro h
  have hanswer : answeredOnce.current.conversation.graph.find (tally 1) ≠ none := by decide
  have hkept := congrArg (Option.map TurnUsage.promptTokens) (h.kept (tally 1) hanswer)
  have hnow : ((runTurn boardSite.host answeredOnce {} anyCall ⟨[unspoken], {}⟩
      "and?").runtime.current.usage[tally 1]?).map TurnUsage.promptTokens = some 5 := by decide
  have hthen : (answeredOnce.current.usage[tally 1]?).map TurnUsage.promptTokens = some 9 := by decide
  rw [hnow,hthen] at hkept
  exact absurd hkept (by decide)

end Runtime

end PuCli
