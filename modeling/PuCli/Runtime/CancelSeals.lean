import PuCli.Runtime.ExecutorFollows
import PuCli.Runtime.RoundShape

namespace PuCli

open MessageGraph

namespace Executing

variable {ρ : Type} {host : Host} {turn : Turn ρ} {st st' : Executing ρ} {round : Round ρ}
variable {reply : ChatResult} {cancelled : Bool}

structure Paces (token : Bool) (w : Window ρ) (st st' : Executing ρ) : Prop where
  cancelled : st'.cancelled = (st.cancelled || (w.cancels && token))
  count : st'.result.toolCallCount = st.result.toolCallCount

theorem paces_pass (turn : Turn ρ) (w : Window ρ) (st : Executing ρ) :
    Paces turn.token w st (st.pass turn w) where
  cancelled := congrArg Flags.cancelled (flags_pass turn w st)
  count := by rw [result_pass]

theorem paces_opened (host : Host) (turn : Turn ρ) (budget : Budgeted) (w : Window ρ)
    (st : Executing ρ) :
    Paces turn.token w st ((st.pass turn w).askWrapUp host budget).openRound := by
  obtain ⟨hc,hn⟩ := paces_pass turn w st
  unfold askWrapUp
  split <;> exact ⟨hc,hn⟩

theorem paces_heard (turn : Turn ρ) (round : Round ρ) (st : Executing ρ) :
    Paces turn.token round.calling st (heard turn round st) := by
  obtain ⟨hc,hn⟩ := paces_pass turn round.calling (round.reply.pieces.foldl receive st)
  obtain ⟨said,streamed,frames,heq⟩ := receive_only round.reply.pieces st
  rw [heq] at hc hn
  constructor
  · rw [heard,heq]
    exact hc
  · rw [heard,heq]
    exact hn

theorem toolCallCount_noteReply (r : ExecutionResult) (reply : ChatResult) :
    (r.noteReply reply).toolCallCount = r.toolCallCount := by
  obtain ⟨usage,notes,heq⟩ := noteReply_only r reply
  rw [heq]

theorem paces_callProvider {called : Called}
    (hc : callProvider host turn round st = .ok (called, st')) :
    Paces turn.token round.calling st st' := by
  have hh := paces_heard turn round st
  obtain ⟨reply,_,_,rfl⟩ | ⟨what,_,⟨_,_,rfl⟩ | ⟨_,_,_,rfl⟩ | ⟨_,_,_,rfl⟩⟩ := callProvider_cases hc
  · exact ⟨hh.cancelled,(toolCallCount_noteReply _ reply).trans hh.count⟩
  · exact hh
  · exact hh
  · exact ⟨hh.cancelled,hh.count⟩

theorem toolCallCount_runCalls (ctx : ToolContext) (steps : Nat → CallStep ρ)
    (calls : List ToolCall) (st : Executing ρ) :
    (runCalls host turn ctx steps calls st).result.toolCallCount = st.result.toolCallCount +
      (Flags.ran turn.token steps calls.length st.flags).1 := by
  induction calls generalizing steps st with
  | nil => rfl
  | cons call calls ih =>
      have hn := (paces_pass turn (steps 0).before st).count
      simp only [runCalls,List.length_cons,Flags.ran,stopAsked_pass]
      split
      · exact hn
      · rw [ih,flags_runCall,runCall_eq]
        have hcount : ((logRun host turn ctx (steps 0) call (st.pass turn (steps 0).before)).append
            host (receipt call (toolText host turn ctx (steps 0) call).1)).result.toolCallCount =
              st.result.toolCallCount + 1 := by
          rw [← hn]
          simp only [append,logRun,countBlocked]
          split <;> rfl
        rw [hcount]
        omega

theorem cancelled_sealIfStopped (host : Host) (turn : Turn ρ) (st : Executing ρ) :
    (st.sealIfStopped host turn).cancelled = st.cancelled := by
  unfold sealIfStopped
  split <;> rfl

theorem runTools_ranOut (hr : round.reply.chat = .ok reply)
    (hc : st.cancelled = round.opened turn.token cancelled) :
    (runTools host turn round reply st).cancelled =
        (round.ranOut turn.token cancelled).cancelled ∧
      (runTools host turn round reply st).result.toolCallCount =
        st.result.toolCallCount + (round.ranOut turn.token cancelled).ran := by
  have hflags : roundFlags turn round (calledAs host reply st).length st =
      Flags.ran turn.token round.steps round.calls.length
        ⟨round.opened turn.token cancelled, ""⟩ := by
    rw [roundFlags,calledAs,length_assignIds,calls_eq hr,hc]
  constructor
  · rw [runTools_eq,cancelled_sealIfStopped,(paces_pass turn round.settling _).cancelled,
      cancelled_noted,hflags]
    rfl
  · rw [(sameOutput_runTools round reply st).result,ranCalls,toolCallCount_runCalls]
    exact congrArg (fun p => st.result.toolCallCount + p.1) hflags

def wrapUpNodes (host : Host) (budget : Budgeted) (st : Executing ρ) : List MessageNode :=
  if budget.reached ∧ ¬ budget.wrapUpAsked then
    [⟨host.newId st.drawn, "", .user ⟨kWrapUp, ""⟩, st.leaf⟩]
  else []

theorem plain_wrapUpNodes (host : Host) (budget : Budgeted) (st : Executing ρ) :
    ∀ n ∈ wrapUpNodes host budget st, n.Plain := by
  intro n hn
  unfold wrapUpNodes at hn
  split at hn
  · rw [List.mem_singleton.mp hn]
    exact ⟨rfl,rfl⟩
  · cases hn

theorem opened_chain (h : Ready host st) (budget : Budgeted) {w : Window ρ}
    (hq : Quiet turn ((st.pass turn w).askWrapUp host budget).openRound) :
    (((st.pass turn w).askWrapUp host budget).openRound).chain =
        st.chain ++ wrapUpNodes host budget st ∧
      Ready host ((st.pass turn w).askWrapUp host budget).openRound := by
  have hqp : Quiet turn (st.pass turn w) := by
    unfold askWrapUp at hq
    split at hq <;> exact hq
  obtain ⟨hconv,hdrawn⟩ := pass_unmoved hqp
  have hp : Ready host (st.pass turn w) := h.of_eq hconv hdrawn
  have hc : (st.pass turn w).chain = st.chain := by
    rw [chain,hconv]
    rfl
  have hl : (st.pass turn w).leaf = st.leaf := by
    rw [leaf,hconv]
    rfl
  unfold askWrapUp wrapUpNodes
  split
  · refine ⟨?_,(hp.append wrapUpMessage).of_eq rfl rfl⟩
    change ((st.pass turn w).append host wrapUpMessage).chain = _
    rw [chain_append hp,← hc,← hdrawn,← hl]
    rfl
  · exact ⟨by rw [List.append_nil]; exact hc,hp.of_eq rfl rfl⟩

theorem unmoved_callProvider {called : Called}
    (hc : callProvider host turn round st = .ok (called, st')) (hq : Quiet turn st') :
    st'.conversation = st.conversation ∧ st'.drawn = st.drawn := by
  have hs := SameTalk.foldl sameTalk_receive round.reply.pieces st
  have hheard : Quiet turn (heard turn round st) → (heard turn round st).conversation =
      st.conversation ∧ (heard turn round st).drawn = st.drawn := by
    intro hquiet
    obtain ⟨hconv,hdrawn⟩ := pass_unmoved hquiet
    exact ⟨hconv.trans hs.conversation,hdrawn.trans hs.drawn⟩
  obtain ⟨reply,_,_,rfl⟩ | ⟨what,_,⟨_,_,rfl⟩ | ⟨_,_,_,rfl⟩ | ⟨_,_,_,rfl⟩⟩ := callProvider_cases hc
  · exact hheard hq
  · exact hheard hq
  · exact hheard hq
  · exact hheard hq

theorem calls_of_failed {called : Called}
    (hc : callProvider host turn round st = .ok (called, st'))
    (hf : ∀ reply, called ≠ .answered reply) : round.calls.isEmpty = true := by
  obtain ⟨reply,_,he,_⟩ | ⟨what,hwhat,_⟩ := callProvider_cases hc
  · exact absurd he (hf reply)
  · simp [Round.calls,hwhat]

def EndsPlain (ns : List MessageNode) : Prop := ∃ init n, ns = init ++ [n] ∧ n.payload.records = []

theorem EndsPlain.append {ns ms : List MessageNode} (h : EndsPlain ns)
    (hm : ∀ n ∈ ms, n.payload.records = []) : EndsPlain (ns ++ ms) := by
  rcases List.eq_nil_or_concat ms with rfl | ⟨init,last,rfl⟩
  · rwa [List.append_nil]
  · rw [List.concat_eq_append] at hm ⊢
    exact ⟨ns ++ init,last,(List.append_assoc _ _ _).symm,hm last (by simp)⟩

theorem endsPlain_block {b : Block} (ns : List MessageNode) (hf : b.Fair) :
    EndsPlain (ns ++ b.nodes) := by
  obtain ⟨init,last,hlast⟩ := List.eq_nil_or_concat b.after |>.resolve_left hf.some
  rw [List.concat_eq_append] at hlast
  refine ⟨ns ++ b.lead ++ b.node :: init,last,?_,hf.after last (by simp [hlast])⟩
  rw [Block.nodes,hlast]
  simp

theorem endsPlain_of_tail {ns ms : List MessageNode} (hne : ms ≠ [])
    (h : ∀ n ∈ ms, n.payload.records = []) : EndsPlain (ns ++ ms) := by
  obtain ⟨init,last,rfl⟩ := List.eq_nil_or_concat ms |>.resolve_left hne
  rw [List.concat_eq_append] at h ⊢
  exact ⟨ns ++ init,last,(List.append_assoc _ _ _).symm,h last (by simp)⟩

theorem endsPlain_roundNodes (hne : reply.toolCalls ≠ []) (ns : List MessageNode) :
    EndsPlain (ns ++ roundNodes host turn round reply st) := by
  have hpos := @length_calledAs_pos ρ host st reply hne
  unfold roundNodes
  split
  · have hsome : receiptNodes (callNode host reply st).id (fun i => host.newId (st.drawn + 1 + i))
        (unrun (callNode host reply st).payload.records) ≠ [] := by
      have hrecs : unrun (callNode host reply st).payload.records =
          (calledAs host reply st).map (ToolCall.withStatus .interrupted) := unrun_records _
      obtain ⟨c,cs,hcs⟩ := List.exists_cons_of_length_pos hpos
      rw [hrecs,hcs]
      simp [receiptNodes]
    rw [cancelledRound,List.append_cons]
    exact endsPlain_of_tail hsome (records_receiptNodes _ _ _)
  · next hz =>
      obtain ⟨ns',n,hw⟩ := written_eq_concat host (st.drawn + 1) (callNode host reply st).id
        (messages_ne_nil hne hz)
      rw [ranRound,List.append_cons]
      refine endsPlain_of_tail (by rw [hw]; simp) (records_written host _ _ (role_messages _))

structure Laid (token : Bool) (played : List (Bool × Round ρ)) (st st' : Executing ρ)
    (bs : List Block) (tail : List MessageNode) : Prop where
  chain : st'.chain = st.chain ++ (bs.flatMap Block.nodes ++ tail)
  runs : st'.runs = st.runs ++ bs.flatMap Block.log
  fair : ∀ b ∈ bs, b.Fair
  plain : ∀ n ∈ tail, n.Plain
  ids : bs.flatMap Block.ids = played.flatMap (fun p => p.2.calls.map ToolCall.id)
  whole : (∀ b ∈ bs, ¬ PendingOn b.nodes) ↔ ∀ p ∈ played, p.2.Whole token p.1

theorem Laid.done {token : Bool} {tail : List MessageNode} (hc : st'.chain = st.chain ++ tail)
    (hr : st'.runs = st.runs) (ht : ∀ n ∈ tail, n.Plain) : Laid token [] st st' [] tail where
  chain := hc
  runs := by rw [hr]; simp
  fair := by simp
  plain := ht
  ids := rfl
  whole := by simp

theorem Laid.cons {token : Bool} {played : List (Bool × Round ρ)} {st₂ : Executing ρ}
    {bs : List Block} {tail : List MessageNode} {b : Block}
    (h : Laid token played st₂ st' bs tail) (hc : st₂.chain = st.chain ++ b.nodes)
    (hr : st₂.runs = st.runs ++ b.log) (hf : b.Fair) (hcalls : b.calls = round.calls)
    (hw : ¬ PendingOn b.nodes ↔ round.Whole token cancelled) :
    Laid token ((cancelled, round) :: played) st st' (b :: bs) tail where
  chain := by rw [h.chain,hc]; simp
  runs := by rw [h.runs,hr]; simp
  fair := List.forall_mem_cons.mpr ⟨hf,h.fair⟩
  plain := h.plain
  ids := by rw [List.flatMap_cons,List.flatMap_cons,h.ids,Block.ids,hcalls]
  whole := by rw [List.forall_mem_cons,List.forall_mem_cons,hw,h.whole]

section Asked

variable {rounds : List (Round ρ)} {budget : Budgeted}

theorem paces_asked {called : Called}
    (hc : callProvider host turn round (asking host turn budget round st) = .ok (called, st')) :
    st'.cancelled = round.opened turn.token st.cancelled ∧
      st'.result.toolCallCount = st.result.toolCallCount := by
  have hpc := paces_callProvider hc
  have hop := paces_opened host turn (checkBudget turn budget st) round.opening st
  rw [hpc.cancelled,hpc.count,asking,hop.cancelled,hop.count]
  exact ⟨rfl,rfl⟩

theorem ranOut_asked
    (hc : callProvider host turn round (asking host turn budget round st) =
      .ok (.answered reply, st')) :
    (runTools host turn round reply st').cancelled =
        (round.ranOut turn.token st.cancelled).cancelled ∧
      (runTools host turn round reply st').result.toolCallCount =
        st.result.toolCallCount + (round.ranOut turn.token st.cancelled).ran := by
  obtain ⟨hcancel,hcount⟩ := paces_asked hc
  obtain ⟨hout,hran⟩ :=
    @runTools_ranOut ρ host turn st' round reply st.cancelled (answered_reply hc) hcancel
  exact ⟨hout,by rw [hran,hcount]⟩

theorem calls_asked
    (hc : callProvider host turn round (asking host turn budget round st) =
      .ok (.answered reply, st')) (hempty : ¬ reply.toolCalls.isEmpty = true) :
    ¬ round.calls.isEmpty = true := by
  rw [calls_eq (answered_reply hc)]
  exact hempty

theorem chain_asked {called : Called} (h : Ready host st)
    (hc : callProvider host turn round (asking host turn budget round st) = .ok (called, st'))
    (hquiet : Quiet turn st') :
    st'.chain = st.chain ++ wrapUpNodes host (checkBudget turn budget st) st ∧
      st'.runs = st.runs ∧ Ready host st' := by
  obtain ⟨hlead,hopen⟩ := opened_chain h (checkBudget turn budget st) (hquiet.of_callProvider hc)
  obtain ⟨hconv,hdrawn⟩ := unmoved_callProvider hc hquiet
  have hruns := sameRuns_opened host turn (checkBudget turn budget st) round.opening st
  refine ⟨?_,(hruns.trans (sameRuns_callProvider hc)).runs,hopen.of_eq hconv hdrawn⟩
  rw [← hlead,chain,hconv]
  rfl

theorem toolRounds_over
    (hover : (checkBudget turn budget st).reached ∧ (checkBudget turn budget st).wrapUpAsked) :
    toolRounds turn.token turn.budget (round :: rounds) budget st.cancelled
      st.result.toolCallCount = [] := by
  rw [toolRounds]
  exact if_pos (.inl hover)

theorem toolRounds_last (hempty : round.calls.isEmpty = true) :
    toolRounds turn.token turn.budget (round :: rounds) budget st.cancelled
      st.result.toolCallCount = [] := by
  rw [toolRounds]
  exact if_pos (.inr hempty)

theorem toolRounds_called
    (hover : ¬ ((checkBudget turn budget st).reached ∧ (checkBudget turn budget st).wrapUpAsked))
    (hc : callProvider host turn round (asking host turn budget round st) =
      .ok (.answered reply, st')) (hempty : ¬ reply.toolCalls.isEmpty = true) :
    toolRounds turn.token turn.budget (round :: rounds) budget st.cancelled
        st.result.toolCallCount =
      (st.cancelled, round) :: toolRounds turn.token turn.budget rounds
        ⟨(checkBudget turn budget st).reached,
          budget.wrapUpAsked || (checkBudget turn budget st).reached⟩
        (runTools host turn round reply st').cancelled
        (runTools host turn round reply st').result.toolCallCount := by
  obtain ⟨hout,hran⟩ := ranOut_asked hc
  have hcalls := calls_asked hc hempty
  rw [hout,hran,toolRounds]
  exact if_neg (not_or.mpr ⟨hover,hcalls⟩)

end Asked

theorem laid_runToolLoop (hi : turn.Idle) (rounds : List (Round ρ)) (budget : Budgeted)
    (h : Ready host st) (he : EndsPlain st.chain) (hn : ∀ round ∈ rounds, round.Named)
    (hret : (runToolLoop host turn rounds budget st).1 = .returned) :
    ∃ bs tail, Laid turn.token (toolRounds turn.token turn.budget rounds budget st.cancelled
      st.result.toolCallCount) st (runToolLoop host turn rounds budget st).2 bs tail := by
  induction rounds generalizing budget st with
  | nil =>
      refine ⟨[],[],.done ?_ ?_ (by simp)⟩ <;> simp only [runToolLoop] at hret ⊢
      · split
        · exact (List.append_nil _).symm
        · exact (List.append_nil _).symm
      · split <;> rfl
  | cons round rounds ih =>
      have hround := hn round (by simp)
      have hrest : ∀ r ∈ rounds, r.Named := fun r hr => hn r (List.mem_cons_of_mem _ hr)
      have hplain := plain_wrapUpNodes host (checkBudget turn budget st) st
      cases looped host turn round rounds budget st with
      | spent hover heq =>
          rw [heq,toolRounds_over hover]
          exact ⟨[],[],.done (List.append_nil _).symm rfl (by simp)⟩
      | threw hover hc heq =>
          rw [heq] at hret
          cases hret
      | failed hover hc heq =>
          obtain ⟨hc₁,hr₁,_⟩ := chain_asked h hc (quiet_of_idle hi _)
          rw [heq,toolRounds_last (calls_of_failed hc (by simp))]
          exact ⟨[],_,.done hc₁ hr₁ hplain⟩
      | stopped hover hc heq =>
          obtain ⟨hc₁,hr₁,hready⟩ := chain_asked h hc (quiet_of_idle hi _)
          obtain ⟨init,n,hsplit,hnil⟩ := he.append (fun n hn => (hplain n hn).records)
          have hsilent := (sealCalls_silent hready (hc₁.trans hsplit) hnil).1
          rw [heq,toolRounds_last (calls_of_failed hc (by simp))]
          exact ⟨[],_,.done (hsilent.trans hc₁) hr₁ hplain⟩
      | abandoned hover hc heq =>
          obtain ⟨hc₁,hr₁,_⟩ := chain_asked h hc (quiet_of_idle hi _)
          rw [heq,toolRounds_last (calls_of_failed hc (by simp))]
          exact ⟨[],_,.done hc₁ hr₁ hplain⟩
      | answered hover hc hempty heq =>
          obtain ⟨hc₁,hr₁,_⟩ := chain_asked h hc (quiet_of_idle hi _)
          rw [heq,toolRounds_last (by rw [calls_eq (answered_reply hc)]; exact hempty)]
          exact ⟨[],_,.done hc₁ hr₁ hplain⟩
      | @called reply st₁ hover hc hempty heq =>
          obtain ⟨hc₁,hr₁,hready⟩ := chain_asked h hc (quiet_of_idle hi _)
          have hreply := answered_reply hc
          have hne : reply.toolCalls ≠ [] := by simpa using hempty
          have hfair := @fair_blockOf ρ host turn st₁ round reply _ hreply hround hne hplain
          obtain ⟨hchain,hready'⟩ := runTools_chain hready hne
            (quiet_of_idle hi (runTools host turn round reply st₁))
          have hblock : (runTools host turn round reply st₁).chain = st.chain ++
              (blockOf host turn round reply
                (wrapUpNodes host (checkBudget turn budget st) st) st₁).nodes := by
            rw [hchain,hc₁,nodes_blockOf,List.append_assoc]
          have hlog : (runTools host turn round reply st₁).runs = st.runs ++
              (blockOf host turn round reply
                (wrapUpNodes host (checkBudget turn budget st) st) st₁).log := by
            rw [(@runs_runTools ρ host turn round reply st₁).1,hr₁]
            rfl
          rw [heq] at hret ⊢
          obtain ⟨bs,tail,hlaid⟩ := ih _ hready' (by rw [hblock]; exact endsPlain_block _ hfair)
            hrest hret
          rw [toolRounds_called hover hc hempty]
          exact ⟨_,tail,hlaid.cons hblock hlog hfair (calledAs_eq hreply hround)
            (whole_blockOf hreply hround hne hplain (paces_asked hc).1)⟩

def Sealed (old : List MessageNode) (st : Executing ρ) : Prop :=
  ¬ PendingOn st.chain ∧ PairedOn st.runs (st.chain.drop old.length)

theorem sealed_runToolLoop_iff (hi : turn.Idle) {rounds : List (Round ρ)} {input : String}
    (h : Ready host st) (hruns : st.runs = []) (hn : ∀ round ∈ rounds, round.Named)
    (hret : (runToolLoop host turn rounds {}
      (st.append host (question input st.peerOrigin))).1 = .returned) :
    Sealed st.chain (runToolLoop host turn rounds {}
        (st.append host (question input st.peerOrigin))).2 ↔
      ¬ PendingOn st.chain ∧
        (∀ p ∈ toolRounds turn.token turn.budget rounds {} st.cancelled st.result.toolCallCount,
          p.2.Whole turn.token p.1) ∧
        ((toolRounds turn.token turn.budget rounds {} st.cancelled
          st.result.toolCallCount).flatMap (fun p => p.2.calls.map ToolCall.id)).Nodup := by
  have hasked : (st.append host (question input st.peerOrigin)).chain =
      st.chain ++ [askedNode host input st] := chain_append h (question input st.peerOrigin)
  have hends : EndsPlain (st.append host (question input st.peerOrigin)).chain :=
    ⟨st.chain,askedNode host input st,hasked,rfl⟩
  obtain ⟨bs,tail,hlaid⟩ := laid_runToolLoop hi rounds {} (h.append _) hends hn hret
  have hplain : ∀ n ∈ [askedNode host input st], n.payload.records = [] := by
    intro n hmem
    rw [List.mem_singleton.mp hmem]
    rfl
  have hlog : (st.append host (question input st.peerOrigin)).runs = [] := hruns
  unfold Sealed
  rw [hlaid.chain,hlaid.runs,hlog,hasked,List.nil_append,List.append_assoc,List.drop_left,
    pendingOn_append,pendingOn_append,not_or,not_or,pairedOn_skip hplain,and_assoc,and_assoc,
    Block.sealed_iff hlaid.fair hlaid.plain,hlaid.ids,hlaid.whole]
  simp only [not_pendingOn_of_records hplain,not_false_eq_true,true_and]
  rfl

end Executing

namespace Runtime

open Executing

def asked (host : Host) (rt : Runtime) (input : String) : Executing Empty :=
  rt.executing.append host (question input rt.peerOrigin)

def played (turn : Turn Empty) (rounds : List (Round Empty)) : List (Bool × Round Empty) :=
  toolRounds turn.token turn.budget rounds {} false 0

theorem cancel_seals_iff_rounds_whole {host : Host} {rt : Runtime} {turn : Turn Empty}
    {rounds : List (Round Empty)} {input : String}
    (hbuilt : rt.current.conversation.graph.Built)
    (hids : rt.current.conversation.graph.FreshSupply (fun i => host.newId (rt.drawn + i)))
    (hnamed : ∀ round ∈ rounds, round.Named)
    (hret : (runToolLoop host turn rounds {} (rt.asked host input)).1 = .returned) :
    Sealed rt.current.conversation.chain (runToolLoop host turn rounds {} (rt.asked host input)).2 ↔
      ¬ PendingOn rt.current.conversation.chain ∧
        (∀ p ∈ played turn rounds, p.2.Whole turn.token p.1) ∧
        ((played turn rounds).flatMap (fun p => p.2.calls.map ToolCall.id)).Nodup := by
  have hready : Ready host (rt.executing : Executing Empty) := ⟨hbuilt.sound,hids⟩
  have hidle : turn.Idle := fun _ r => r.elim
  exact sealed_runToolLoop_iff hidle hready rfl hnamed hret

def bashCall (id : String) : ToolCall := ⟨id, "execute_bash", .object []⟩

def cancelling (first second : Bool) : Round Empty where
  reply := .whole { toolCalls := [bashCall "c1", bashCall "c2"] }
  steps i :=
    { before := { cancels := if i = 0 then first else second }
      answer := ⟨.ok "ran", ⟨.ok "", .ok ""⟩⟩ }

def cutOff : Round Empty where
  reply := .threw [] "aborted"
  steps _ := { answer := ⟨.ok "", ⟨.ok "", .ok ""⟩⟩ }

def cancelledTurn (first second : Bool) : Exit × Executing Empty :=
  runToolLoop boardSite.host (servingC.turn true (fun c _ => c)) [cancelling first second, cutOff] {}
    (servingC.asked boardSite.host "go")

theorem named_cancelling (first second : Bool) :
    ∀ round ∈ [cancelling first second, cutOff], round.Named := by
  intro round hround
  rcases List.mem_cons.mp hround with rfl | hround
  · have hcalls : (cancelling first second).calls = [bashCall "c1", bashCall "c2"] := rfl
    constructor <;> rw [hcalls]
    · decide
    · decide
  · rw [List.mem_singleton.mp hround]
    exact ⟨by decide,by decide⟩

theorem tally_fresh_empty (drawn : Nat) :
    MessageGraph.empty.FreshSupply (fun i => tally (drawn + i)) where
  named _ := tally_ne_empty _
  new _ := by simp [MessageGraph.find,MessageGraph.empty]
  distinct _ _ h := Nat.add_left_cancel (tally_injective h)

theorem cancel_seals_before_first_call :
    (cancelledTurn true false).1 = .returned ∧
      (cancelledTurn true false).2.runs.map ToolRun.call = [] ∧
      Sealed [] (cancelledTurn true false).2 := by
  have hret : (cancelledTurn true false).1 = .returned := by decide
  refine ⟨hret,by decide,?_⟩
  refine (@cancel_seals_iff_rounds_whole boardSite.host servingC _ _ "go" ⟨_,.empty,.refl⟩
    (tally_fresh_empty 0) (named_cancelling true false) hret).mpr ?_
  decide

theorem cancel_leaves_second_call_pending :
    (∀ round ∈ [cancelling false true, cutOff], round.Named) ∧
      (cancelledTurn false true).1 = .returned ∧
      (cancelledTurn false true).2.runs.map ToolRun.call = [bashCall "c1"] ∧
      answersFor "c2" (cancelledTurn false true).2.chain = [] ∧
      ¬ Sealed [] (cancelledTurn false true).2 := by
  have hpending : PendingOn (cancelledTurn false true).2.chain := by decide
  exact ⟨named_cancelling false true,by decide,by decide,by decide,fun h => h.1 hpending⟩

end Runtime

end PuCli
