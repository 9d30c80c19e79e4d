import PuCli.App.KeptText
import PuCli.Runtime.OwnUsage
import PuCli.Session.Nesting

namespace PuCli

open MessageGraph

variable {ρ : Type}

-- The first reply ends the turn without a word, and still reports what it cost.
def Script.Silent (script : Script ρ) : Prop :=
  ∃ round ∈ script.rounds.head?, ∃ reply, round.reply.chat = .ok reply ∧ reply.toolCalls = [] ∧
    Wordless reply ∧ reply.usage ≠ none

theorem lastAssistant_congr {ns ms : List MessageNode}
    (hids : ns.map MessageNode.id = ms.map MessageNode.id)
    (hpayloads : ns.map MessageNode.payload = ms.map MessageNode.payload) :
    lastAssistant ns = lastAssistant ms := by
  induction ns using List.reverseRecOn generalizing ms with
  | nil =>
      obtain rfl : ms = [] := by simpa using hids.symm
      rfl
  | append_singleton ns n ih =>
      rcases List.eq_nil_or_concat ms with rfl | ⟨init,m,rfl⟩
      · simp at hids
      · rw [List.concat_eq_append] at hids hpayloads ⊢
        rw [List.map_append,List.map_append,List.map_singleton,List.map_singleton,
          List.append_singleton_inj] at hids hpayloads
        by_cases hn : n.FromAssistant
        · obtain ⟨p,hp⟩ := hn
          rw [lastAssistant_concat_of ⟨p,hp⟩,lastAssistant_concat_of ⟨p,hpayloads.2 ▸ hp⟩,hids.2]
        · have hm : ¬ m.FromAssistant := by
            rintro ⟨p,hp⟩
            exact hn ⟨p,hpayloads.2.trans hp⟩
          rw [lastAssistant_concat_not hn,lastAssistant_concat_not hm]
          exact ih hids.1 hpayloads.1

theorem exists_fromAssistant_iff (ns : List MessageNode) :
    (∃ n ∈ ns, n.FromAssistant) ↔
      (ns.map MessageNode.payload).filterMap MessagePayload.assistant? ≠ [] := by
  rw [List.filterMap_map,Ne,List.filterMap_eq_nil_iff]
  push Not
  refine exists_congr (fun n => and_congr_right (fun _ => ?_))
  unfold MessageNode.FromAssistant
  cases hp : n.payload <;> simp [MessagePayload.assistant?,hp]

theorem assistants_acts_eq_nil_iff {text : JsonText} {saids : List Said} {acts : List Act}
    (h : List.Forall₂ (Acted text) saids acts) :
    (acts.flatMap Act.payloads).filterMap MessagePayload.assistant? = [] ↔ saids = [] := by
  cases h with
  | nil => simp
  | cons ha _ =>
      obtain ⟨recs,-,hspoke⟩ := ha.spoke
      simp [hspoke]

theorem assistants_finale_eq_nil_iff (f : Finale) :
    f.payloads.filterMap MessagePayload.assistant? = [] ↔ f.content = "" := by
  rw [Finale.payloads,List.filterMap_append,Executing.assistants_wrapUpPayloads]
  split
  · next h => simp [h]
  · next h => simp [h,MessagePayload.assistant?]

namespace Executing

variable {host : Host} {turn : Turn ρ} {st st' : Executing ρ} {script : Script ρ}
variable {old : List MessageId} {start : Nat}

-- Every node stored is an older one of the chain or has an id drawn since the start.
structure Traced (host : Host) (old : List MessageId) (start : Nat) (st : Executing ρ) : Prop
    extends Ready host st where
  started : start ≤ st.drawn
  absent : ∀ id, id ∉ old → (∀ i, id ≠ host.newId (start + i)) →
    st.conversation.graph.find id = none

theorem Traced.drawn_ne (h : Traced host old start st) {id : MessageId}
    (hne : ∀ i, id ≠ host.newId (start + i)) (i : Nat) : id ≠ host.newId (st.drawn + i) := by
  have hsum : start + (st.drawn - start + i) = st.drawn + i := by
    have := h.started
    omega
  rw [← hsum]
  exact hne _

theorem steady_confined (hk : turn.Keeps) : Steady host turn (Traced host old start) where
  same h hs :=
    ⟨h.toReady.of_sameTalk hs,hs.drawn ▸ h.started,by rw [hs.conversation]; exact h.absent⟩
  append {st} msg h := by
    refine ⟨h.toReady.append msg,h.started.trans (Nat.le_succ _),?_⟩
    intro id hid hne
    exact find_appendAfterLeaf_eq_none h.sound h.fresh _ _ (h.absent id hid hne) (h.drawn_ne hne 0)
  sealCalls h := by
    refine ⟨h.toReady.sealCalls,h.started.trans (Nat.le_add_right _ _),?_⟩
    intro id hid hne
    exact find_seal_eq_none h.sound h.supply (h.absent id hid hne) (h.drawn_ne hne)
  serve {st} request h := by
    refine ⟨h.toReady.serveOne hk request,h.started,?_⟩
    intro id hid hne
    have hnone := h.absent id hid hne
    unfold MessageGraph.find at hnone ⊢
    rw [← hnone]
    exact congrArg (·[id]?) (hk.nodes st.conversation request)

theorem traced_asked (h : Ready host st) (msg : ChatMessage) :
    Traced host (st.chain.map MessageNode.id) st.drawn (st.append host msg) := by
  refine ⟨h.append msg,Nat.le_succ _,?_⟩
  intro id hid hne
  cases hf : (st.append host msg).conversation.graph.find id with
  | none => rfl
  | some n =>
      obtain ⟨hmem,rfl⟩ := (find_appendAfterLeaf h.sound h.fresh _ _ id).mp hf
      have hids := (completesOne_answerIn (toPayload host.text msg) st.chain).ids
      have hin : n.id ∈ (st.append host msg).chain.map MessageNode.id := List.mem_map_of_mem hmem
      rw [chain_append h,List.map_append,hids,List.mem_append] at hin
      rcases hin with hin | hin
      · exact absurd hin hid
      · exact absurd (List.mem_singleton.mp hin) (hne 0)

theorem traced_execute (hk : turn.Keeps) (h : Ready host st) (script : Script ρ)
    (input : String) :
    Traced host (st.chain.map MessageNode.id) st.drawn (execute host turn script input st).2 :=
  (steady_confined hk).execute script input (traced_asked h _)

-- A turn that nobody rewinds leaves the older nodes at the head of the chain.
structure Grown (host : Host) (turn : Turn ρ) (old : List MessageId) (st : Executing ρ) : Prop
    extends Ready host st where
  ids : Quiet turn st → old <+: st.chain.map MessageNode.id

theorem steady_grown (hk : turn.Keeps) : Steady host turn (Grown host turn old) where
  same h hs := by
    refine ⟨h.toReady.of_sameTalk hs,?_⟩
    rw [Quiet,hs.served,chain,hs.conversation]
    exact h.ids
  append msg h := by
    refine ⟨h.toReady.append msg,?_⟩
    intro hq
    rw [chain_append h.toReady,List.map_append,
      (completesOne_answerIn (toPayload host.text msg) _).ids]
    exact (h.ids hq).trans (List.prefix_append _ _)
  sealCalls {st} h := by
    refine ⟨h.toReady.sealCalls,?_⟩
    intro hq
    refine (h.ids hq).trans ?_
    rcases List.eq_nil_or_concat st.chain with hnil | ⟨ns,n,hns⟩
    · rw [hnil]
      exact List.nil_prefix
    · rw [List.concat_eq_append] at hns
      rw [(chain_sealCalls h.toReady hns).1,hns,List.map_append,List.map_append,List.map_cons,
        List.map_cons,(alike_interruptNode n).id]
      exact (List.prefix_append_right_inj _).mpr (List.cons_prefix_cons.mpr ⟨rfl,List.nil_prefix⟩)
  serve {st} request h := by
    refine ⟨h.toReady.serveOne hk request,?_⟩
    intro hq
    have hsame : turn.serve st.conversation request = st.conversation :=
      hq (st.conversation, request) (List.mem_append_right _ (List.mem_singleton_self _))
    have hbefore : Quiet turn st := fun e he => hq e (List.mem_append_left _ he)
    rw [chain,show (st.serveOne turn request).conversation = _ from hsame]
    exact h.ids hbefore

theorem ids_execute (hk : turn.Keeps) (h : Ready host st) (input : String)
    (hq : Quiet turn (execute host turn script input st).2) :
    st.chain.map MessageNode.id <+: (execute host turn script input st).2.chain.map MessageNode.id := by
  have hasked : Grown host turn (st.chain.map MessageNode.id)
      (st.append host (question input st.peerOrigin)) := by
    refine ⟨h.append _,fun _ => ?_⟩
    rw [chain_append h,List.map_append,(completesOne_answerIn _ st.chain).ids]
    exact List.prefix_append _ _
  exact ((steady_grown hk).execute script input hasked).ids hq

-- What a turn reported is the sum over the rounds it asked for.
theorem usage_calledRounds (rounds : List (Round ρ)) (budget : Budgeted)
    (hret : (runToolLoop host turn rounds budget st).1 = .returned) :
    (runToolLoop host turn rounds budget st).2.result.usage =
      ((calledRounds turn.token turn.budget rounds budget st.cancelled
        st.result.toolCallCount).filterMap Round.reported).foldl addReported st.result.usage := by
  induction rounds generalizing budget st with
  | nil =>
      simp only [runToolLoop] at hret ⊢
      split at hret
      · next hover =>
          rw [if_pos hover]
          exact usage_conclude _ _
      · cases hret
  | cons round rounds ih =>
      have hone : [round].filterMap Round.reported = round.reported.toList := by
        cases hr : round.reported <;> simp [hr]
      cases looped host turn round rounds budget st with
      | threw hover hc heq =>
          rw [heq] at hret
          cases hret
      | spent hover heq =>
          rw [heq,calledRounds_over hover]
          exact usage_conclude _ _
      | failed hover hc heq =>
          rw [heq,calledRounds_last hover (calls_of_failed hc (by simp)),hone,← usage_asked hc]
          exact usage_conclude _ _
      | stopped hover hc heq =>
          rw [heq,calledRounds_last hover (calls_of_failed hc (by simp)),hone,← usage_asked hc]
          rfl
      | abandoned hover hc heq =>
          rw [heq,calledRounds_last hover (calls_of_failed hc (by simp)),hone,← usage_asked hc]
      | answered hover hc hempty heq =>
          rw [heq,calledRounds_last hover (by rw [calls_eq (answered_reply hc)]; exact hempty),hone,
            ← usage_asked hc]
          exact usage_conclude _ _
      | called hover hc hempty heq =>
          rw [heq] at hret
          rw [heq,ih _ hret,usage_runTools,usage_asked hc,calledRounds_called hover hc hempty,
            ← List.singleton_append,List.filterMap_append,hone,List.foldl_append]

theorem result_execute (input : String) (hret : (execute host turn script input st).1 = .returned) :
    (runToolLoop host turn script.rounds {} (st.append host (question input st.peerOrigin))).1 =
        .returned ∧
      (execute host turn script input st).2.result = (runToolLoop host turn script.rounds {}
        (st.append host (question input st.peerOrigin))).2.result := by
  obtain ⟨hloop,heq⟩ := execute_returned hret
  refine ⟨hloop,?_⟩
  rw [heq,result_keepAnswer,result_pass]

theorem usage_execute (input : String) (hr : st.result = {})
    (hret : (execute host turn script input st).1 = .returned) :
    (execute host turn script input st).2.result.usage =
      ((calledRounds turn.token turn.budget script.rounds {} st.cancelled 0).filterMap
        Round.reported).foldl addReported none := by
  obtain ⟨hloop,hresult⟩ := result_execute input hret
  have hcount : (st.append host (question input st.peerOrigin)).result = {} := hr
  rw [hresult,usage_calledRounds script.rounds {} hloop,hcount]
  rfl

theorem kept_answered (hopen : st.result.Open) (budgetReached : Bool) (reply : ChatResult) :
    ((st.result.answer reply).conclude budgetReached).kept = "" ↔ Wordless reply := by
  by_cases hw : Wordless reply
  · refine iff_of_true ?_ hw
    unfold ExecutionResult.kept
    split
    · rfl
    · next he =>
        have herr : ((st.result.answer reply).conclude budgetReached).hasError = false := by
          simpa using he
        rw [(ExecutionResult.content_conclude herr).1]
        exact answerOf_eq_empty.mpr hw
  · refine iff_of_false ?_ hw
    have hsaid : (st.result.answer reply).content ≠ "" := fun h => hw (answerOf_eq_empty.mp h)
    have hres := ExecutionResult.conclude_said budgetReached hsaid
    have herr : ((st.result.answer reply).conclude budgetReached).hasError = false := by
      rw [hres]
      exact hopen.hasError
    rw [ExecutionResult.kept_eq herr,hres]
    exact hsaid

-- A turn with a usage to file has no node of its own exactly when its first reply is silent.
theorem silent_runToolLoop_iff (hr : st.result = {})
    (hret : (runToolLoop host turn script.rounds {} st).1 = .returned)
    (hu : (runToolLoop host turn script.rounds {} st).2.result.usage ≠ none) :
    (outline host turn.token turn.budget script.rounds {} st.cancelled st.result.toolCallCount
        st.nextToolCallId).saids = [] ∧
      (runToolLoop host turn script.rounds {} st).2.result.kept = "" ↔ script.Silent := by
  have hnone : st.result.usage = none := by rw [hr]
  have hopen : st.result.Open := by
    rw [hr]
    exact ⟨rfl,rfl⟩
  unfold Script.Silent
  generalize script.rounds = rounds at *
  cases rounds with
  | nil =>
      have hrun : runToolLoop host turn ([] : List (Round ρ)) {} st = (.running, st) :=
        if_neg not_spent_first
      rw [hrun] at hret
      cases hret
  | cons round rounds =>
      have hunpriced : ∀ {called st₁}, callProvider host turn round (asking host turn {} round st) =
          .ok (called, st₁) → (∀ reply, called ≠ .answered reply) → st₁.result.usage = none := by
        intro called st₁ hc hf
        rw [usage_asked hc,unreported_asked hc hf]
        exact hnone
      cases looped host turn round rounds {} st with
      | spent hover heq => exact absurd hover not_spent_first
      | threw hover hc heq =>
          rw [heq] at hret
          cases hret
      | failed hover hc heq =>
          rw [heq] at hu
          exact absurd ((usage_conclude _ _).trans (hunpriced hc (by simp))) hu
      | stopped hover hc heq =>
          rw [heq] at hu
          exact absurd (hunpriced hc (by simp)) hu
      | abandoned hover hc heq =>
          rw [heq] at hu
          exact absurd (hunpriced hc (by simp)) hu
      | @answered reply st₁ hover hc hempty heq =>
          have hreply := answered_reply hc
          have hasked : st₁.result.usage = reply.usage.toList.foldl addReported none := by
            rw [usage_asked hc,reported_asked hc,hnone]
          have hreported : reply.usage ≠ none := by
            intro hno
            rw [heq] at hu
            refine hu ((usage_conclude _ _).trans ?_)
            rw [hno] at hasked
            exact hasked
          rw [heq,outline_last hover (by rw [calls_eq hreply]; exact hempty)]
          refine (and_iff_right rfl).trans ((kept_answered (open_answered hopen hc) _ reply).trans ?_)
          constructor
          · intro hw
            exact ⟨round,rfl,reply,hreply,List.isEmpty_iff.mp hempty,hw,hreported⟩
          · rintro ⟨first,hfirst,said,hsaid,-,hw,-⟩
            obtain rfl : round = first := Option.some.inj hfirst
            rw [hreply] at hsaid
            obtain rfl := Except.ok.inj hsaid
            exact hw
      | @called reply st₁ hover hc hempty heq =>
          have hnext := (live_callProvider hc).2.trans
            (unseen_opened host turn (checkBudget turn {} st) round.opening st).next
          rw [outline_called hover hc hempty hnext]
          refine iff_of_false (fun h => absurd h.1 (by simp)) ?_
          rintro ⟨first,hfirst,said,hsaid,hcalls,-,-⟩
          obtain rfl : round = first := Option.some.inj hfirst
          rw [answered_reply hc] at hsaid
          obtain rfl := Except.ok.inj hsaid
          exact hempty (List.isEmpty_iff.mpr hcalls)

theorem silent_execute_iff (input : String) (hr : st.result = {})
    (hret : (execute host turn script input st).1 = .returned)
    (hu : (execute host turn script input st).2.result.usage ≠ none) :
    (outline host turn.token turn.budget script.rounds {} st.cancelled st.result.toolCallCount
        st.nextToolCallId).saids = [] ∧
      (execute host turn script input st).2.result.kept = "" ↔ script.Silent := by
  obtain ⟨hloop,hresult⟩ := result_execute input hret
  have hasked : (st.append host (question input st.peerOrigin)).result = {} := hr
  rw [hresult] at hu ⊢
  exact silent_runToolLoop_iff hasked hloop hu

end Executing

def TokenUsage.Finite (usage : TokenUsage) : Prop := ∀ cost, usage.cost = some cost → cost.Finite

-- Filing a usage replaces the entry of the last answer, where there is one.
theorem pricesFinite_recordTurnUsage {s : Session} (h : s.conversation.graph.Sound)
    (result : ExecutionResult) (backend : Backend) :
    (recordTurnUsage s result backend).PricesFinite ↔
      (∀ id ∈ s.live, (result.usage ≠ none → id ≠ lastAssistant s.conversation.chain) →
        ∀ usage : TurnUsage, s.usage[id]? = some usage → usage.Finite) ∧
      (lastAssistant s.conversation.chain ≠ "" →
        ∀ usage, result.usage = some usage → usage.Finite) := by
  cases hu : result.usage with
  | none =>
      rw [recordTurnUsage_unpriced hu]
      simp [Session.PricesFinite]
  | some usage =>
      by_cases hlast : lastAssistant s.conversation.chain = ""
      · rw [recordTurnUsage_unanswered hlast,hlast]
        refine Iff.trans ?_ (and_iff_left (fun hne => absurd rfl hne)).symm
        refine forall₂_congr (fun id hid => ?_)
        have hne : id ≠ "" := by
          obtain ⟨n,hn,rfl⟩ := List.mem_map.mp hid
          exact id_ne_empty_of_mem_chain h hn
        exact ⟨fun h _ => h,fun h => h (fun _ => hne)⟩
      · have hmem : lastAssistant s.conversation.chain ∈ s.live :=
          (lastAssistant_mem s.conversation.chain).resolve_left hlast
        rw [recordTurnUsage_filed hu hlast]
        simp only [Session.PricesFinite,Session.live] at hmem ⊢
        constructor
        · intro hall
          refine ⟨?_,?_⟩
          · intro id hid hne entry hentry
            refine hall id hid entry ?_
            rw [Std.ExtTreeMap.getElem?_insert,if_neg ?_,hentry]
            intro hcmp
            exact hne (by simp) (compare_eq_iff_eq.mp hcmp).symm
          · intro _ said hsaid
            obtain rfl := Option.some.inj hsaid
            exact hall _ hmem _ Std.ExtTreeMap.getElem?_insert_self
        · rintro ⟨hkept,hfiled⟩ id hid entry hentry
          rw [Std.ExtTreeMap.getElem?_insert] at hentry
          split at hentry
          · obtain rfl := Option.some.inj hentry
            exact hfiled hlast usage rfl
          · next hne =>
              refine hkept id hid (fun _ heq => hne ?_) entry hentry
              exact compare_eq_iff_eq.mpr heq.symm

namespace Runtime

variable {site : Site} {serve : Conversation → ρ → Conversation} {script : Script ρ}
variable {input origin : String} {rt : Runtime}

def spent (rt : Runtime) (script : Script ρ) : Option TokenUsage :=
  ((rt.called script).filterMap Round.reported).foldl addReported none

-- The prices a turn leaves in the file where nobody rewinds: a silent one takes over the entry
-- of the last answer, and files nothing where there is none.
structure PricesFinite (rt : Runtime) (script : Script ρ) : Prop where
  kept : ∀ id ∈ rt.current.live,
    (script.Silent → id ≠ lastAssistant rt.current.conversation.chain) →
      ∀ usage : TurnUsage, rt.current.usage[id]? = some usage → usage.Finite
  filed : (script.Silent → lastAssistant rt.current.conversation.chain ≠ "") →
    ∀ usage, rt.spent script = some usage → usage.Finite

theorem ready_talking (origin : String) (hsound : rt.current.conversation.graph.Sound)
    (hids : rt.current.conversation.graph.FreshSupply (fun i => site.host.newId (rt.drawn + i))) :
    Executing.Ready site.host
      ((defaultSession { rt with peerOrigin := origin }).executing : Executing ρ) := ⟨hsound,hids⟩

theorem ready_talked (script : Script ρ) (input origin : String)
    (hsound : rt.current.conversation.graph.Sound)
    (hids : rt.current.conversation.graph.FreshSupply (fun i => site.host.newId (rt.drawn + i)))
    (hkeeps : (rt.turn true serve).Keeps) :
    Executing.Ready site.host (talking site serve script input origin rt).2 :=
  (Executing.steady_ready hkeeps).execute script input ((ready_talking origin hsound hids).append _)

theorem usage_talking (hret : (talking site serve script input origin rt).1 = .returned) :
    (talking site serve script input origin rt).2.result.usage = rt.spent script :=
  Executing.usage_execute input rfl hret

theorem spent_of_silent (h : script.Silent) : rt.spent script ≠ none := by
  obtain ⟨round,hround,reply,hreply,hcalls,-,hreported⟩ := h
  obtain ⟨rounds,hrounds⟩ : ∃ rounds, script.rounds = round :: rounds := by
    cases hr : script.rounds with
    | nil =>
        rw [hr] at hround
        cases hround
    | cons first rounds =>
        rw [hr] at hround
        obtain rfl : first = round := Option.some.inj hround
        exact ⟨rounds,rfl⟩
  have hempty : round.calls.isEmpty = true := by
    rw [Executing.calls_eq hreply,hcalls]
    rfl
  have hcalled : rt.called script = [round] := by
    rw [called,hrounds,calledRounds]
    exact (if_neg (by rintro ⟨-,hasked⟩; cases hasked)).trans (if_pos hempty)
  rw [spent,hcalled,Ne,foldl_addReported_eq_none_iff]
  have hone : round.reported = reply.usage := by rw [Round.reported,hreply]
  cases hu : reply.usage with
  | none => exact absurd hu hreported
  | some usage => simp [hone,hu]

-- An entry of the ledger is in the file of the turn only where its node is an older one.
theorem live_talking (hsound : rt.current.conversation.graph.Sound)
    (hids : rt.current.conversation.graph.FreshSupply (fun i => site.host.newId (rt.drawn + i)))
    (hkeeps : (rt.turn true serve).Keeps)
    (hfree : ∀ i, site.host.newId (rt.drawn + i) ∉ rt.current.usage) {id : MessageId}
    {usage : TurnUsage} (hu : rt.current.usage[id]? = some usage)
    (hid : id ∈ (talking site serve script input origin rt).2.chain.map MessageNode.id) :
    id ∈ rt.current.live := by
  have htraced : Executing.Traced site.host rt.current.live rt.drawn
      (talking site serve script input origin rt).2 :=
    Executing.traced_execute hkeeps (ready_talking origin hsound hids) script input
  by_contra hnot
  have hstored : (talking site serve script input origin rt).2.conversation.graph.find id ≠
      none := by
    obtain ⟨n,hn,rfl⟩ := List.mem_map.mp hid
    rw [find_of_mem_chain htraced.sound hn]
    simp
  refine hstored (htraced.absent id hnot ?_)
  rintro i rfl
  refine hfree i ?_
  rw [Std.ExtTreeMap.mem_iff_isSome_getElem?]
  exact Option.isSome_iff_exists.mpr ⟨usage,hu⟩

section Quiet

variable (hsound : rt.current.conversation.graph.Sound)
  (hids : rt.current.conversation.graph.FreshSupply (fun i => site.host.newId (rt.drawn + i)))
  (hkeeps : (rt.turn true serve).Keeps)
  (hret : (talking site serve script input origin rt).1 = .returned)
  (hquiet : ∀ e ∈ (talking site serve script input origin rt).2.served, serve e.1 e.2 = e.1)

include hsound hids hkeeps hret hquiet

theorem chain_quiet : ∃ old new : List MessageNode,
    (talking site serve script input origin rt).2.chain = old ++ new ∧
      old.map MessageNode.id = rt.current.live ∧
      lastAssistant old = lastAssistant rt.current.conversation.chain ∧
      ((∃ n ∈ new, n.FromAssistant) ↔ ¬ ((rt.outlined site.host script).saids = [] ∧
        (talking site serve script input origin rt).2.result.kept = "")) := by
  obtain ⟨acts,hacted,-,hpayloads⟩ := played_talking hsound hids hret hquiet
  obtain ⟨more,hmore⟩ := Executing.ids_execute hkeeps (ready_talking origin hsound hids)
    input hquiet
  set chain := (talking site serve script input origin rt).2.chain with hchain
  have hlength : rt.current.live.length = rt.current.conversation.chain.length := List.length_map _
  have hold : (chain.take rt.current.conversation.chain.length).map MessageNode.id =
      rt.current.live := by
    rw [List.map_take,hchain,talking,← hmore]
    exact List.take_left' hlength
  have hsame : (chain.take rt.current.conversation.chain.length).map MessageNode.payload =
      rt.current.conversation.chain.map MessageNode.payload := by
    rw [List.map_take]
    exact (congrArg (List.take _) hpayloads).trans (List.take_left' (List.length_map _))
  have hnew : (chain.drop rt.current.conversation.chain.length).map MessageNode.payload =
      .user ⟨input, origin⟩ :: (acts.flatMap Act.payloads ++
        (Executing.finaleOf (rt.outlined site.host script)
          (talking site serve script input origin rt).2.result.kept).payloads) := by
    rw [List.map_drop]
    exact (congrArg (List.drop _) hpayloads).trans (List.drop_left' (List.length_map _))
  refine ⟨_,_,(List.take_append_drop _ chain).symm,hold,lastAssistant_congr hold hsame,?_⟩
  rw [exists_fromAssistant_iff,hnew,List.filterMap_cons_none rfl,List.filterMap_append,Ne,
    List.append_eq_nil_iff,assistants_acts_eq_nil_iff hacted,assistants_finale_eq_nil_iff]
  rfl

theorem live_quiet : ∀ id ∈ rt.current.live,
    id ∈ (talking site serve script input origin rt).2.chain.map MessageNode.id := by
  intro id hid
  obtain ⟨old,new,hchain,hold,-⟩ := chain_quiet hsound hids hkeeps hret hquiet
  rw [hchain,List.map_append,hold]
  exact List.mem_append_left _ hid

-- The usage of a quiet turn goes to a node of its own unless its first reply is silent.
theorem filed_quiet (hspent : rt.spent script ≠ none) :
    (script.Silent → lastAssistant (talking site serve script input origin rt).2.chain =
        lastAssistant rt.current.conversation.chain) ∧
      (¬ script.Silent →
        lastAssistant (talking site serve script input origin rt).2.chain ≠ "" ∧
          lastAssistant (talking site serve script input origin rt).2.chain ∉ rt.current.live) := by
  obtain ⟨old,new,hchain,hold,hlast,hown⟩ := chain_quiet hsound hids hkeeps hret hquiet
  have hready := ready_talked script input origin hsound hids hkeeps
  have hsilent : (rt.outlined site.host script).saids = [] ∧
      (talking site serve script input origin rt).2.result.kept = "" ↔ script.Silent := by
    rw [← usage_talking hret] at hspent
    exact Executing.silent_execute_iff input rfl hret hspent
  rw [hsilent] at hown
  rw [hchain]
  constructor
  · intro hs
    rw [← hlast]
    refine lastAssistant_append_none (fun n hn hfrom => ?_)
    exact (hown.mp ⟨n,hn,hfrom⟩) hs
  · intro hs
    obtain ⟨hsame,hmem⟩ := @lastAssistant_append_some old new (hown.mpr hs)
    rw [hsame]
    constructor
    · obtain ⟨n,hn,hname⟩ := List.mem_map.mp hmem
      have hin : n ∈ (talking site serve script input origin rt).2.chain := by
        rw [hchain]
        exact List.mem_append_right old hn
      rw [← hname]
      exact id_ne_empty_of_mem_chain hready.sound hin
    · have hnodup := chain_ids_nodup hready.sound
      change ((talking site serve script input origin rt).2.chain.map MessageNode.id).Nodup at hnodup
      rw [hchain,List.map_append,List.nodup_append,hold] at hnodup
      intro hlive
      exact hnodup.2.2 _ hlive _ hmem rfl

end Quiet

end Runtime

end PuCli
