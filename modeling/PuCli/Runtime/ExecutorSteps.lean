import PuCli.Runtime.Executor

namespace PuCli

open MessageGraph

variable {ρ : Type} {host : Host} {turn : Turn ρ}

structure Turn.Keeps (turn : Turn ρ) : Prop where
  sound : ∀ c r, c.graph.Sound → (turn.serve c r).graph.Sound
  nodes : ∀ c r, (turn.serve c r).graph.nodes = c.graph.nodes

def Turn.Idle (turn : Turn ρ) : Prop := ∀ c r, turn.serve c r = c

def Turn.Inert (turn : Turn ρ) (e : Conversation × ρ) : Prop := turn.serve e.1 e.2 = e.1

theorem MessageGraph.FreshSupply.appendReceipts {g : MessageGraph} {newId : Nat → MessageId}
    (h : g.Sound) (hs : FreshSupply g newId) (calls : List ToolCallRecord) :
    FreshSupply (g.appendReceipts newId calls) (fun i => newId (calls.length + i)) := by
  induction calls generalizing g newId with
  | nil => simpa [MessageGraph.appendReceipts] using hs
  | cons c calls ih =>
      have hsound := sound_appendAfterLeaf h (hs.fresh 0) (cancelledReceipt c) ""
      have hrest := ih hsound (hs.tail h (cancelledReceipt c) "")
      have hshift : (fun i => newId ((c :: calls).length + i)) =
          fun i => newId (calls.length + i + 1) := by
        funext i
        congr 1
        simp only [List.length_cons]
        omega
      rw [hshift]
      exact hrest

namespace Executing

variable {st st' : Executing ρ} {msg : ChatMessage}

def chain (st : Executing ρ) : List MessageNode := st.conversation.chain

def leaf (st : Executing ρ) : MessageId := st.conversation.graph.leaf

def Quiet (turn : Turn ρ) (st : Executing ρ) : Prop := ∀ e ∈ st.served, turn.Inert e

structure SameTalk (st st' : Executing ρ) : Prop where
  conversation : st'.conversation = st.conversation
  drawn : st'.drawn = st.drawn
  served : st'.served = st.served

structure Ready (host : Host) (st : Executing ρ) : Prop where
  sound : st.conversation.graph.Sound
  supply : FreshSupply st.conversation.graph (fun i => host.newId (st.drawn + i))

theorem SameTalk.refl (st : Executing ρ) : SameTalk st st := ⟨rfl,rfl,rfl⟩

theorem SameTalk.trans {st'' : Executing ρ} (h : SameTalk st st') (h' : SameTalk st' st'') :
    SameTalk st st'' :=
  ⟨h'.conversation.trans h.conversation,h'.drawn.trans h.drawn,h'.served.trans h.served⟩

theorem SameTalk.foldl {α : Type} {f : Executing ρ → α → Executing ρ}
    (hf : ∀ st a, SameTalk st (f st a)) (as : List α) (st : Executing ρ) :
    SameTalk st (as.foldl f st) := by
  induction as generalizing st with
  | nil => exact .refl st
  | cons a as ih => exact (hf st a).trans (ih (f st a))

theorem sameTalk_receive (st : Executing ρ) (piece : Piece) : SameTalk st (st.receive piece) := by
  cases piece with
  | content text =>
      simp only [receive]
      split <;> exact ⟨rfl,rfl,rfl⟩
  | reasoning text =>
      simp only [receive]
      split <;> exact ⟨rfl,rfl,rfl⟩

structure ServedOnly (st st' : Executing ρ) : Prop where
  cancelled : st'.cancelled = st.cancelled
  userNote : st'.userNote = st.userNote
  peerOrigin : st'.peerOrigin = st.peerOrigin
  nextToolCallId : st'.nextToolCallId = st.nextToolCallId
  result : st'.result = st.result
  earlier : st'.earlier = st.earlier
  frames : st'.frames = st.frames
  runs : st'.runs = st.runs

theorem servedOnly_requests (turn : Turn ρ) (rs : List ρ) (st : Executing ρ) :
    ServedOnly st (rs.foldl (serveOne turn) st) := by
  induction rs generalizing st with
  | nil => exact ⟨rfl,rfl,rfl,rfl,rfl,rfl,rfl,rfl⟩
  | cons r rs ih =>
      obtain ⟨hc,hn,hp,ht,hr,he,hf,hl⟩ := ih (st.serveOne turn r)
      exact ⟨hc,hn,hp,ht,hr,he,hf,hl⟩

@[simp] theorem result_pass (turn : Turn ρ) (w : Window ρ) (st : Executing ρ) :
    (st.pass turn w).result = st.result := (servedOnly_requests turn w.requests st).result

@[simp] theorem earlier_pass (turn : Turn ρ) (w : Window ρ) (st : Executing ρ) :
    (st.pass turn w).earlier = st.earlier := (servedOnly_requests turn w.requests st).earlier

@[simp] theorem frames_pass (turn : Turn ρ) (w : Window ρ) (st : Executing ρ) :
    (st.pass turn w).frames = st.frames := (servedOnly_requests turn w.requests st).frames

@[simp] theorem nextToolCallId_pass (turn : Turn ρ) (w : Window ρ) (st : Executing ρ) :
    (st.pass turn w).nextToolCallId = st.nextToolCallId :=
  (servedOnly_requests turn w.requests st).nextToolCallId

theorem Ready.of_eq (h : Ready host st) (hc : st'.conversation = st.conversation)
    (hd : st'.drawn = st.drawn) : Ready host st' := by
  constructor
  · rw [hc]
    exact h.sound
  · rw [hc,hd]
    exact h.supply

theorem Ready.of_sameTalk (h : Ready host st) (hs : SameTalk st st') : Ready host st' :=
  h.of_eq hs.conversation hs.drawn

theorem Ready.fresh (h : Ready host st) :
    st.conversation.graph.Fresh (host.newId st.drawn) := h.supply.fresh 0

theorem Ready.append (h : Ready host st) (msg : ChatMessage) : Ready host (st.append host msg) where
  sound := sound_appendAfterLeaf h.sound h.fresh _ _
  supply := by
    have ht := h.supply.tail h.sound (toPayload host.text msg) msg.timestamp
    have hshift : (fun i => host.newId ((st.append host msg).drawn + i)) =
        fun i => host.newId (st.drawn + (i + 1)) := by
      funext i
      congr 1
      simp only [Executing.append]
      omega
    rw [hshift]
    exact ht

theorem chain_append (h : Ready host st) (msg : ChatMessage) :
    (st.append host msg).chain = answerIn (toPayload host.text msg) st.chain ++
      [⟨host.newId st.drawn, msg.timestamp, toPayload host.text msg, st.leaf⟩] :=
  chain_appendAfterLeaf h.sound h.fresh (toPayload host.text msg) msg.timestamp

theorem leafCalls_eq {n : MessageNode} (hl : st.conversation.graph.find st.leaf = some n) :
    st.leafCalls = unrun n.payload.records := by
  have hf : st.conversation.graph.find st.conversation.graph.leaf = some n := hl
  simp [leafCalls,hf]

theorem sealCalls_of_find_eq_none (hl : st.conversation.graph.find st.leaf = none) :
    SameTalk st (st.sealCalls host) := by
  have hf : st.conversation.graph.find st.conversation.graph.leaf = none := hl
  refine ⟨?_,?_,rfl⟩
  · simp [sealCalls,Conversation.sealInterruptedToolCalls,
      sealInterruptedToolCalls_of_find_eq_none hf]
  · simp [sealCalls,leafCalls,hf]

theorem Ready.sealCalls (h : Ready host st) : Ready host (st.sealCalls host) := by
  cases hl : st.conversation.graph.find st.conversation.graph.leaf with
  | none => exact h.of_sameTalk (sealCalls_of_find_eq_none hl)
  | some n =>
      refine ⟨sound_seal h.sound h.supply,?_⟩
      have ha := alike_interruptNode n
      have hrep := FreshSupply.appendReceipts (sound_replace h.sound hl ha)
        (h.supply.replace hl (interruptNode n)) (unrun n.payload.records)
      have hg : (st.sealCalls host).conversation.graph =
          (st.conversation.graph.replace st.conversation.graph.leaf (interruptNode n)).appendReceipts
            (fun i => host.newId (st.drawn + i)) (unrun n.payload.records) :=
        sealInterruptedToolCalls_eq hl
      have hd : (st.sealCalls host).drawn = st.drawn + (unrun n.payload.records).length := by
        simp [Executing.sealCalls,leafCalls_eq hl]
      rw [hg,hd]
      simpa only [Nat.add_assoc] using hrep

theorem chain_sealCalls {ns : List MessageNode} {n : MessageNode} (h : Ready host st)
    (hc : st.chain = ns ++ [n]) :
    (st.sealCalls host).chain = ns ++ interruptNode n ::
      receiptNodes st.leaf (fun i => host.newId (st.drawn + i)) (unrun n.payload.records) ∧
    (st.sealCalls host).drawn = st.drawn + (unrun n.payload.records).length := by
  have hl : st.conversation.graph.find st.leaf = some n := by
    have hlast := chain_getLast? h.sound
    change st.chain.getLast? = _ at hlast
    rw [hc,List.getLast?_concat] at hlast
    exact hlast.symm
  refine ⟨(seal_spec h.sound h.supply hc).2,?_⟩
  simp [sealCalls,leafCalls_eq hl]

theorem sealCalls_of_chain_eq_nil (h : Ready host st) (hnil : st.chain = []) :
    SameTalk st (st.sealCalls host) := by
  have hlast := chain_getLast? h.sound
  change st.chain.getLast? = _ at hlast
  rw [hnil] at hlast
  exact sealCalls_of_find_eq_none hlast.symm

theorem interruptNode_of_records_eq_nil {n : MessageNode} (hn : n.payload.records = []) :
    interruptNode n = n := by
  obtain ⟨id,timestamp,payload,parent⟩ := n
  cases payload with
  | assistant p =>
      obtain ⟨content,reasoning,toolCalls⟩ := p
      obtain rfl : toolCalls = [] := hn
      rfl
  | _ => rfl

theorem sealCalls_silent {ns : List MessageNode} {n : MessageNode} (h : Ready host st)
    (hc : st.chain = ns ++ [n]) (hn : n.payload.records = []) :
    (st.sealCalls host).chain = st.chain ∧ (st.sealCalls host).drawn = st.drawn := by
  obtain ⟨hch,hd⟩ := chain_sealCalls h hc
  rw [hn,interruptNode_of_records_eq_nil hn] at hch
  rw [hn] at hd
  refine ⟨?_,by simpa [unrun] using hd⟩
  rw [hch,hc]
  rfl

theorem Ready.serveOne (hk : turn.Keeps) (h : Ready host st) (request : ρ) :
    Ready host (st.serveOne turn request) where
  sound := hk.sound _ _ h.sound
  supply := by
    have hn := hk.nodes st.conversation request
    refine ⟨h.supply.named,?_,h.supply.distinct⟩
    intro i
    have hnew := h.supply.new i
    unfold MessageGraph.find at hnew ⊢
    rw [show (st.serveOne turn request).conversation.graph.nodes = _ from hn]
    exact hnew

def heard (turn : Turn ρ) (round : Round ρ) (st : Executing ρ) : Executing ρ :=
  (round.reply.pieces.foldl receive st).pass turn round.calling

-- The pieces of a reply change the text so far, whether any was streamed, and the frames.
theorem receive_only (pieces : List Piece) (st : Executing ρ) :
    ∃ said streamed frames, pieces.foldl receive st =
      { st with
        result := { st.result with content := said, wasStreamed := streamed }
        frames := frames } := by
  induction pieces generalizing st with
  | nil => exact ⟨_,_,_,rfl⟩
  | cons piece pieces ih =>
      obtain ⟨said,streamed,frames,heq⟩ := ih (st.receive piece)
      rw [List.foldl_cons,heq]
      cases piece <;> (simp only [receive]; split <;> exact ⟨_,_,_,rfl⟩)

theorem heard_only (turn : Turn ρ) (round : Round ρ) (st : Executing ρ) :
    (heard turn round st).nextToolCallId = st.nextToolCallId ∧
      ∃ said streamed, (heard turn round st).result =
        { st.result with content := said, wasStreamed := streamed } := by
  obtain ⟨said,streamed,frames,heq⟩ := receive_only round.reply.pieces st
  unfold heard
  rw [nextToolCallId_pass,result_pass,heq]
  exact ⟨rfl,said,streamed,rfl⟩

-- A reply noted adds to the usage and to the notes on its shape, and to nothing else.
theorem noteReply_only (r : ExecutionResult) (reply : ChatResult) :
    ∃ usage notes, r.noteReply reply = { r with usage := usage, shapeNotes := notes } := by
  unfold ExecutionResult.noteReply
  cases reply.usage <;> (dsimp only; split <;> exact ⟨_,_,rfl⟩)

def noteFailure (st : Executing ρ) (what : String) : Executing ρ :=
  { st with result := { st.result with
    hasError := true, errorMessage := "Request failed: " ++ readableError what } }

theorem callProvider_cases {called : Called} {round : Round ρ}
    (hc : callProvider host turn round st = .ok (called, st')) :
    (∃ reply, round.reply.chat = .ok reply ∧ called = .answered reply ∧
      st' = { heard turn round st with result := (heard turn round st).result.noteReply reply }) ∨
    ∃ what, round.reply.chat = .error what ∧
      ((called = .stopped ∧ (heard turn round st).stopAsked turn = true ∧
          st' = heard turn round st) ∨
        (called = .abandoned ∧ (heard turn round st).stopAsked turn = false ∧
          round.shutdown = true ∧ st' = heard turn round st) ∨
        (called = .failed ∧ (heard turn round st).stopAsked turn = false ∧
          round.shutdown = false ∧ st' = (heard turn round st).noteFailure what)) := by
  unfold callProvider at hc
  obtain ⟨_,_,hc⟩ := bind_eq_ok hc
  dsimp only at hc
  split at hc
  · next reply hreply =>
      obtain ⟨rfl,rfl⟩ := Prod.mk.inj (Except.ok.inj hc)
      exact .inl ⟨reply,hreply,rfl,rfl⟩
  · next what hwhat =>
      refine .inr ⟨what,hwhat,?_⟩
      split at hc
      · next hstop =>
          obtain ⟨rfl,rfl⟩ := Prod.mk.inj (Except.ok.inj hc)
          exact .inl ⟨rfl,hstop,rfl⟩
      · next hstop =>
          have hgo := Bool.eq_false_iff.mpr hstop
          split at hc
          · next hdown =>
              obtain ⟨rfl,rfl⟩ := Prod.mk.inj (Except.ok.inj hc)
              exact .inr (.inl ⟨rfl,hgo,hdown,rfl⟩)
          · next hdown =>
              obtain ⟨rfl,rfl⟩ := Prod.mk.inj (Except.ok.inj hc)
              exact .inr (.inr ⟨rfl,hgo,Bool.eq_false_iff.mpr hdown,rfl⟩)

def asking (host : Host) (turn : Turn ρ) (budget : Budgeted) (round : Round ρ)
    (st : Executing ρ) : Executing ρ :=
  ((st.pass turn round.opening).askWrapUp host (checkBudget turn budget st)).openRound

inductive Looped (host : Host) (turn : Turn ρ) (round : Round ρ) (rounds : List (Round ρ))
    (budget : Budgeted) (st : Executing ρ) : Prop
  | spent (hover : (checkBudget turn budget st).reached ∧ (checkBudget turn budget st).wrapUpAsked)
      (heq : runToolLoop host turn (round :: rounds) budget st =
        conclude (checkBudget turn budget st) st)
  | threw {what : String}
      (hover : ¬ ((checkBudget turn budget st).reached ∧ (checkBudget turn budget st).wrapUpAsked))
      (hc : callProvider host turn round (asking host turn budget round st) = .error what)
      (heq : runToolLoop host turn (round :: rounds) budget st =
        (.threw what, asking host turn budget round st))
  | failed {st₁ : Executing ρ}
      (hover : ¬ ((checkBudget turn budget st).reached ∧ (checkBudget turn budget st).wrapUpAsked))
      (hc : callProvider host turn round (asking host turn budget round st) = .ok (.failed, st₁))
      (heq : runToolLoop host turn (round :: rounds) budget st =
        conclude ⟨(checkBudget turn budget st).reached, budget.wrapUpAsked ||
          (checkBudget turn budget st).reached⟩ st₁)
  | stopped {st₁ : Executing ρ}
      (hover : ¬ ((checkBudget turn budget st).reached ∧ (checkBudget turn budget st).wrapUpAsked))
      (hc : callProvider host turn round (asking host turn budget round st) = .ok (.stopped, st₁))
      (heq : runToolLoop host turn (round :: rounds) budget st = (.returned, st₁.sealCalls host))
  | abandoned {st₁ : Executing ρ}
      (hover : ¬ ((checkBudget turn budget st).reached ∧ (checkBudget turn budget st).wrapUpAsked))
      (hc : callProvider host turn round (asking host turn budget round st) = .ok (.abandoned, st₁))
      (heq : runToolLoop host turn (round :: rounds) budget st = (.returned, st₁))
  | answered {reply : ChatResult} {st₁ : Executing ρ}
      (hover : ¬ ((checkBudget turn budget st).reached ∧ (checkBudget turn budget st).wrapUpAsked))
      (hc : callProvider host turn round (asking host turn budget round st) =
        .ok (.answered reply, st₁))
      (hempty : reply.toolCalls.isEmpty = true)
      (heq : runToolLoop host turn (round :: rounds) budget st =
        conclude ⟨(checkBudget turn budget st).reached, budget.wrapUpAsked ||
          (checkBudget turn budget st).reached⟩ { st₁ with result := st₁.result.answer reply })
  | called {reply : ChatResult} {st₁ : Executing ρ}
      (hover : ¬ ((checkBudget turn budget st).reached ∧ (checkBudget turn budget st).wrapUpAsked))
      (hc : callProvider host turn round (asking host turn budget round st) =
        .ok (.answered reply, st₁))
      (hempty : ¬ reply.toolCalls.isEmpty = true)
      (heq : runToolLoop host turn (round :: rounds) budget st =
        runToolLoop host turn rounds ⟨(checkBudget turn budget st).reached, budget.wrapUpAsked ||
          (checkBudget turn budget st).reached⟩ (runTools host turn round reply st₁))

theorem looped (host : Host) (turn : Turn ρ) (round : Round ρ) (rounds : List (Round ρ))
    (budget : Budgeted) (st : Executing ρ) : Looped host turn round rounds budget st := by
  have heq : runToolLoop host turn (round :: rounds) budget st = _ := runToolLoop.eq_2 ..
  dsimp only at heq
  by_cases hover : (checkBudget turn budget st).reached ∧ (checkBudget turn budget st).wrapUpAsked
  · rw [if_pos hover] at heq
    exact .spent hover heq
  have hasking : ((st.pass turn round.opening).askWrapUp host
      (checkBudget turn budget st)).openRound = asking host turn budget round st := rfl
  rw [if_neg hover,hasking] at heq
  cases hc : callProvider host turn round (asking host turn budget round st) with
  | error what =>
      rw [hc] at heq
      exact .threw hover hc heq
  | ok answered =>
      obtain ⟨called,st₁⟩ := answered
      rw [hc] at heq
      cases called with
      | failed => exact .failed hover hc heq
      | stopped => exact .stopped hover hc heq
      | abandoned => exact .abandoned hover hc heq
      | answered reply =>
          dsimp only at heq
          by_cases hempty : reply.toolCalls.isEmpty = true
          · rw [if_pos hempty] at heq
            exact .answered hover hc hempty heq
          · rw [if_neg hempty] at heq
            exact .called hover hc hempty heq

structure Steady (host : Host) (turn : Turn ρ) (I : Executing ρ → Prop) : Prop where
  same : ∀ {st st'}, I st → SameTalk st st' → I st'
  append : ∀ {st} msg, I st → I (st.append host msg)
  sealCalls : ∀ {st}, I st → I (st.sealCalls host)
  serve : ∀ {st} request, I st → I (st.serveOne turn request)

namespace Steady

variable {I : Executing ρ → Prop}

theorem serveAll (h : Steady host turn I) (rs : List ρ) (hi : I st) :
    I (rs.foldl (serveOne turn) st) := by
  induction rs generalizing st with
  | nil => exact hi
  | cons r rs ih => exact ih (h.serve r hi)

theorem pass (h : Steady host turn I) (w : Window ρ) (hi : I st) : I (st.pass turn w) := by
  have hserved := h.serveAll w.requests hi
  have hsame : SameTalk (w.requests.foldl (serveOne turn) st) (st.pass turn w) := ⟨rfl,rfl,rfl⟩
  exact h.same hserved hsame

theorem receive (h : Steady host turn I) (pieces : List Piece) (hi : I st) :
    I (pieces.foldl Executing.receive st) :=
  h.same hi (.foldl sameTalk_receive pieces st)

theorem heard (h : Steady host turn I) (round : Round ρ) (hi : I st) : I (heard turn round st) :=
  h.pass round.calling (h.receive round.reply.pieces hi)

theorem callProvider {called : Called} {round : Round ρ} (h : Steady host turn I) (hi : I st)
    (hc : callProvider host turn round st = .ok (called, st')) : I st' := by
  have hh := h.heard round hi
  obtain ⟨reply,_,_,rfl⟩ | ⟨what,_,⟨_,_,rfl⟩ | ⟨_,_,_,rfl⟩ | ⟨_,_,_,rfl⟩⟩ := callProvider_cases hc
  · exact h.same hh ⟨rfl,rfl,rfl⟩
  · exact hh
  · exact hh
  · exact h.same hh ⟨rfl,rfl,rfl⟩

theorem runCall (h : Steady host turn I) (ctx : ToolContext) (step : CallStep ρ) (call : ToolCall)
    (hi : I st) : I (runCall host turn ctx step call st) := by
  set counted := { st with result := { st.result with
    toolCallCount := st.result.toolCallCount + 1 } } with hcounted
  have hstart : SameTalk st (counted.say (.toolStart call.id call.name call.arguments)) :=
    ⟨rfl,rfl,rfl⟩
  have hasks := SameTalk.foldl (fun (st : Executing ρ) command =>
    (⟨rfl,rfl,rfl⟩ : SameTalk st (st.say (.approvalAsk command)))) step.asks
    (counted.say (.toolStart call.id call.name call.arguments))
  exact h.append _ (h.same hi ((hstart.trans hasks).trans ⟨rfl,rfl,rfl⟩))

theorem runCalls (h : Steady host turn I) (ctx : ToolContext) (steps : Nat → CallStep ρ)
    (calls : List ToolCall) (hi : I st) : I (runCalls host turn ctx steps calls st) := by
  induction calls generalizing st steps with
  | nil => exact hi
  | cons call calls ih =>
      have hp := h.pass (steps 0).before hi
      simp only [Executing.runCalls]
      split
      · exact hp
      · exact ih _ (h.runCall ctx (steps 0) call hp)

theorem leaveNote (h : Steady host turn I) (hi : I st) : I (st.leaveNote host turn) := by
  unfold Executing.leaveNote
  split
  · exact h.same (h.append (noteMessage st.userNote) hi) ⟨rfl,rfl,rfl⟩
  · exact hi

theorem sealIfStopped (h : Steady host turn I) (hi : I st) : I (st.sealIfStopped host turn) := by
  unfold Executing.sealIfStopped
  split
  · exact h.sealCalls hi
  · exact hi

theorem runTools (h : Steady host turn I) (round : Round ρ) (reply : ChatResult) (hi : I st) :
    I (runTools host turn round reply st) := by
  refine h.sealIfStopped (h.pass _ (h.leaveNote (h.pass _ (h.runCalls _ _ _ ?_))))
  refine h.same (h.append (assistantTurn reply
    (assignIds host st.nextToolCallId reply.toolCalls).1) ?_) ⟨rfl,rfl,rfl⟩
  exact h.same hi ⟨rfl,rfl,rfl⟩

theorem asking (h : Steady host turn I) (budget : Budgeted) (round : Round ρ) (hi : I st) :
    I (asking host turn budget round st) := by
  have hp := h.pass round.opening hi
  have ha : I ((st.pass turn round.opening).askWrapUp host (checkBudget turn budget st)) := by
    unfold Executing.askWrapUp
    split
    · exact h.append _ hp
    · exact hp
  exact h.same ha ⟨rfl,rfl,rfl⟩

theorem runToolLoop (h : Steady host turn I) (rounds : List (Round ρ)) (budget : Budgeted)
    (hi : I st) : I (runToolLoop host turn rounds budget st).2 := by
  have concluded : ∀ {st : Executing ρ} (budget : Budgeted), I st → I (conclude budget st).2 :=
    fun _ hi => h.same hi ⟨rfl,rfl,rfl⟩
  induction rounds generalizing budget st with
  | nil =>
      simp only [Executing.runToolLoop]
      split
      · exact concluded _ hi
      · exact hi
  | cons round rounds ih =>
      have ho := h.asking budget round hi
      cases looped host turn round rounds budget st with
      | spent hover heq =>
          rw [heq]
          exact concluded _ hi
      | threw hover hc heq =>
          rw [heq]
          exact ho
      | failed hover hc heq =>
          rw [heq]
          exact concluded _ (h.callProvider ho hc)
      | stopped hover hc heq =>
          rw [heq]
          exact h.sealCalls (h.callProvider ho hc)
      | abandoned hover hc heq =>
          rw [heq]
          exact h.callProvider ho hc
      | answered hover hc hempty heq =>
          rw [heq]
          exact concluded _ (h.same (h.callProvider ho hc) ⟨rfl,rfl,rfl⟩)
      | called hover hc hempty heq =>
          rw [heq]
          exact ih _ (h.runTools round _ (h.callProvider ho hc))

theorem keepAnswer (h : Steady host turn I) (hi : I st) : I (st.keepAnswer host) := by
  unfold Executing.keepAnswer
  split
  · exact hi
  · exact h.append _ hi

theorem execute (h : Steady host turn I) (script : Script ρ) (input : String)
    (hi : I (st.append host (question input st.peerOrigin))) :
    I (execute host turn script input st).2 := by
  have hl := h.runToolLoop script.rounds {} hi
  unfold Executing.execute
  dsimp only
  split
  · next hr =>
      rw [hr] at hl
      exact h.keepAnswer (h.pass _ hl)
  · exact hl

end Steady

theorem steady_ready (hk : turn.Keeps) : Steady host turn (Ready host) where
  same h hs := h.of_sameTalk hs
  append msg h := h.append msg
  sealCalls h := h.sealCalls
  serve request h := h.serveOne hk request

theorem steady_disturbed : Steady host turn (fun st => ¬ Quiet turn st) where
  same h hs hq := h (by simpa only [Quiet,hs.served] using hq)
  append _ h hq := h hq
  sealCalls h hq := h hq
  serve _ h hq := h (fun e he => hq e (List.mem_append_left _ he))

theorem Quiet.of_leaveNote (hq : Quiet turn (st.leaveNote host turn)) : Quiet turn st := by
  by_contra hn
  exact (@steady_disturbed ρ host turn).leaveNote hn hq

theorem Quiet.of_sealIfStopped (hq : Quiet turn (st.sealIfStopped host turn)) :
    Quiet turn st := by
  by_contra hn
  exact (@steady_disturbed ρ host turn).sealIfStopped hn hq

theorem Quiet.of_keepAnswer (hq : Quiet turn (st.keepAnswer host)) : Quiet turn st := by
  by_contra hn
  exact (@steady_disturbed ρ host turn).keepAnswer hn hq

theorem Quiet.of_callProvider {round : Round ρ} {called : Called}
    (hc : callProvider host turn round st = .ok (called, st')) (hq : Quiet turn st') :
    Quiet turn st := by
  by_contra hn
  exact (@steady_disturbed ρ host turn).callProvider hn hc hq

theorem Quiet.of_runTools {round : Round ρ} {reply : ChatResult}
    (hq : Quiet turn (runTools host turn round reply st)) : Quiet turn st := by
  by_contra hn
  exact (@steady_disturbed ρ host turn).runTools round reply hn hq

theorem Quiet.of_runToolLoop {rounds : List (Round ρ)} {budget : Budgeted}
    (hq : Quiet turn (runToolLoop host turn rounds budget st).2) : Quiet turn st := by
  by_contra hn
  exact (@steady_disturbed ρ host turn).runToolLoop rounds budget hn hq

theorem quiet_of_idle (hi : turn.Idle) (st : Executing ρ) : Quiet turn st := fun e _ => hi e.1 e.2

theorem subset_served_serveAll (rs : List ρ) (st : Executing ρ) :
    st.served ⊆ (rs.foldl (serveOne turn) st).served := by
  induction rs generalizing st with
  | nil => exact List.Subset.refl _
  | cons r rs ih => exact fun _ he => ih _ (List.mem_append_left _ he)

theorem Quiet.of_pass {w : Window ρ} (hq : Quiet turn (st.pass turn w)) : Quiet turn st :=
  fun e he => hq e (subset_served_serveAll w.requests st he)

theorem serveAll_unmoved (rs : List ρ) (hq : Quiet turn (rs.foldl (serveOne turn) st)) :
    (rs.foldl (serveOne turn) st).conversation = st.conversation ∧
      (rs.foldl (serveOne turn) st).drawn = st.drawn := by
  induction rs generalizing st with
  | nil => exact ⟨rfl,rfl⟩
  | cons r rs ih =>
      obtain ⟨hc,hd⟩ := ih hq
      have hmem : (st.conversation, r) ∈ (st.serveOne turn r).served := by simp [serveOne]
      have hinert := hq _ (subset_served_serveAll rs _ hmem)
      exact ⟨hc.trans hinert,hd⟩

theorem pass_unmoved {w : Window ρ} (hq : Quiet turn (st.pass turn w)) :
    (st.pass turn w).conversation = st.conversation ∧ (st.pass turn w).drawn = st.drawn :=
  serveAll_unmoved w.requests hq

end Executing

end PuCli
