import PuCli.App.AnswerFrames
import PuCli.Web.Replay

namespace PuCli

open MessageGraph

variable {ρ : Type}

structure Outline where
  saids : List Said := []
  pieces : List Piece := []
  wrapUp : Bool := false

namespace Round

def noteAfter (token cancelled : Bool) (round : Round ρ) : String :=
  if token then
    ((Flags.ran token round.steps round.calls.length
      ⟨round.opened token cancelled, ""⟩).2.pass token round.closing).userNote
  else ""

def saidAs (host : Host) (token cancelled wrapUp : Bool) (next : Nat) (round : Round ρ)
    (reply : ChatResult) : Said where
  pieces := round.reply.pieces
  content := reply.content
  reasoning := reply.reasoning
  calls := (Executing.assignIds host next reply.toolCalls).1
  ran := (round.ranOut token cancelled).ran
  wrapUp := wrapUp
  note := round.noteAfter token cancelled

end Round

def outline (host : Host) (token : Bool) (limit : Int) :
    List (Round ρ) → Budgeted → Bool → Nat → Nat → Outline
  | [], _, _, _, _ => {}
  | round :: rounds, budget, cancelled, count, next =>
      let reached := budget.reached || decide (limit ≤ count)
      if reached ∧ budget.wrapUpAsked then {}
      else
        let wrapUp := reached && !budget.wrapUpAsked
        match round.reply.chat with
        | .error _ => { pieces := round.reply.pieces, wrapUp := wrapUp }
        | .ok reply =>
            if reply.toolCalls.isEmpty then { pieces := round.reply.pieces, wrapUp := wrapUp }
            else
              let out := round.ranOut token cancelled
              let rest := outline host token limit rounds
                ⟨reached, budget.wrapUpAsked || reached⟩ out.cancelled (count + out.ran)
                (Executing.assignIds host next reply.toolCalls).2
              { rest with saids := round.saidAs host token cancelled wrapUp next reply :: rest.saids }

theorem liveBlocks_append (fs gs : List Frame) :
    liveBlocks (fs ++ gs) = gs.foldl dispatchFrame (liveBlocks fs) := List.foldl_append

theorem asked_completeRecord (id : String) (rs : List ToolCallRecord) :
    (completeRecord id rs).map ToolCallRecord.asked = rs.map ToolCallRecord.asked := by
  induction rs with
  | nil => rfl
  | cons r rs ih =>
      rw [completeRecord]
      split
      · split <;> rfl
      · rw [List.map_cons,List.map_cons,ih]

theorem payload_completeAll (ids : List String) {n : MessageNode} {p : AssistantPayload}
    (hp : n.payload = .assistant p) :
    ∃ recs : List ToolCallRecord, recs.map ToolCallRecord.asked =
        p.toolCalls.map ToolCallRecord.asked ∧
      (completeAll ids n).payload = .assistant ⟨p.content, p.reasoning, recs⟩ := by
  induction ids generalizing n p with
  | nil => exact ⟨p.toolCalls,rfl,hp⟩
  | cons id ids ih =>
      have hone : (completeRecordOf id n).payload =
          .assistant ⟨p.content, p.reasoning, completeRecord id p.toolCalls⟩ := by
        simp [completeRecordOf,hp]
      obtain ⟨recs,hrecs,hpay⟩ := ih hone
      exact ⟨recs,hrecs.trans (asked_completeRecord id p.toolCalls),hpay⟩

theorem payloads_written (host : Host) (drawn : Nat) (parent : MessageId) (ms : List ChatMessage) :
    (written host drawn parent ms).map MessageNode.payload = ms.map (toPayload host.text) := by
  induction ms generalizing drawn parent with
  | nil => rfl
  | cons m ms ih => rw [written,List.map_cons,List.map_cons,ih]

theorem records_none {ns : List MessageNode} (h : ∀ n ∈ ns, n.payload.records = []) :
    (ns.map MessageNode.payload).flatMap MessagePayload.records = [] := by
  rw [List.flatMap_eq_nil_iff]
  intro p hp
  obtain ⟨n,hn,rfl⟩ := List.mem_map.mp hp
  exact h n hn

theorem assistants_receiptNodes (parent : MessageId) (newId : Nat → MessageId)
    (rs : List ToolCallRecord) :
    ((receiptNodes parent newId rs).map MessageNode.payload).filterMap
      MessagePayload.assistant? = [] := by
  induction rs generalizing parent newId with
  | nil => rfl
  | cons r rs ih => exact ih (newId 0) _

theorem assistants_toPayload (text : JsonText) {ms : List ChatMessage}
    (h : ∀ m ∈ ms, m.role ≠ .assistant) :
    (ms.map (toPayload text)).filterMap MessagePayload.assistant? = [] := by
  rw [List.filterMap_eq_nil_iff]
  intro p hp
  obtain ⟨m,hm,rfl⟩ := List.mem_map.mp hp
  have hrole := h m hm
  unfold toPayload
  split
  · next hr => exact absurd hr hrole
  · rfl
  · rfl
  · rfl

theorem toolCall_asked_record (calls : List ToolCall) :
    (calls.map ToolCall.record).map ToolCallRecord.asked = calls := by
  rw [List.map_map]
  exact List.map_id calls

namespace Executing

variable {host : Host} {turn : Turn ρ} {st st' : Executing ρ} {round : Round ρ}
variable {reply : ChatResult} {cancelled : Bool}

def live (st : Executing ρ) : List PageBlock := liveBlocks (st.earlier ++ st.frames)

def payloads (st : Executing ρ) : List MessagePayload := st.chain.map MessageNode.payload

theorem live_say (st : Executing ρ) (frame : Frame) :
    (st.say frame).live = dispatchFrame st.live frame := by
  simp only [live,say]
  rw [← List.append_assoc,liveBlocks_append]
  rfl

theorem live_receive (pieces : List Piece) (st : Executing ρ) :
    (pieces.foldl receive st).live = pieces.foldl showPiece st.live := by
  induction pieces generalizing st with
  | nil => rfl
  | cons piece pieces ih =>
      have hone : (st.receive piece).live = showPiece st.live piece := by
        cases piece with
        | content text =>
            simp only [receive,showPiece]
            split
            · rfl
            · rw [live_say]
              rfl
        | reasoning text =>
            simp only [receive,showPiece]
            split
            · next he => simp [handleThinking,he]
            · rw [live_say]
              rfl
      rw [List.foldl_cons,ih,hone,List.foldl_cons]

structure Unseen (st st' : Executing ρ) : Prop where
  live : st'.live = st.live
  next : st'.nextToolCallId = st.nextToolCallId

theorem Unseen.trans {st'' : Executing ρ} (h : Unseen st st') (h' : Unseen st' st'') :
    Unseen st st'' := ⟨h'.live.trans h.live,h'.next.trans h.next⟩

theorem unseen_pass (turn : Turn ρ) (w : Window ρ) (st : Executing ρ) :
    Unseen st (st.pass turn w) :=
  ⟨by simp only [live,earlier_pass,frames_pass],nextToolCallId_pass turn w st⟩

theorem unseen_opened (host : Host) (turn : Turn ρ) (budget : Budgeted) (w : Window ρ)
    (st : Executing ρ) : Unseen st ((st.pass turn w).askWrapUp host budget).openRound := by
  have hp := unseen_pass turn w st
  have ho : ∀ s : Executing ρ, Unseen s s.openRound := by
    intro s
    exact ⟨by simp [live,openRound],rfl⟩
  refine Unseen.trans ?_ (ho _)
  unfold askWrapUp
  split
  · exact ⟨hp.live,hp.next⟩
  · exact hp

theorem live_callProvider {called : Called}
    (hc : callProvider host turn round st = .ok (called, st')) :
    st'.live = round.reply.pieces.foldl showPiece st.live ∧
      st'.nextToolCallId = st.nextToolCallId := by
  have hp := unseen_pass turn round.calling (round.reply.pieces.foldl receive st)
  have hnext : ∀ (pieces : List Piece) (s : Executing ρ),
      (pieces.foldl receive s).nextToolCallId = s.nextToolCallId := by
    intro pieces s
    induction pieces generalizing s with
    | nil => rfl
    | cons piece pieces ih =>
        rw [List.foldl_cons,ih]
        cases piece <;> (simp only [receive]; split <;> rfl)
  have hh : (heard turn round st).live = round.reply.pieces.foldl showPiece st.live ∧
      (heard turn round st).nextToolCallId = st.nextToolCallId :=
    ⟨hp.live.trans (live_receive _ _),hp.next.trans (hnext _ _)⟩
  obtain ⟨reply,_,_,rfl⟩ | ⟨what,_,⟨_,_,rfl⟩ | ⟨_,_,_,rfl⟩ | ⟨_,_,_,rfl⟩⟩ := callProvider_cases hc
  · exact hh
  · exact hh
  · exact hh
  · exact hh

theorem error_of_invalid {text : JsonText} {raw : String}
    (h : (parseToolResult text raw).valid = false) : (parseToolResult text raw).error = "" := by
  unfold parseToolResult at h ⊢
  split at h
  · split at h
    · rfl
    · simp at h
    · simp at h
  · rfl

theorem toolEndFrame_eq (text : JsonText) (call : ToolCall) (raw : String) :
    toolEndFrame call raw (parseToolResult text raw) =
      .toolEnd call.id call.name call.arguments (shownOutput text raw) (shownError text raw) := by
  unfold toolEndFrame shownOutput shownError
  split
  · rfl
  · next hv => rw [error_of_invalid (by simpa using hv)]

theorem dispatch_callFrames (step : CallStep ρ) (call : ToolCall) (raw : String)
    (posts : List Post) (bs : List PageBlock) :
    (callFrames host step call raw).foldl dispatchFrame bs =
      ((⟨call, raw, posts⟩ : ToolRun).shown host.text).play bs := by
  have hasks : ∀ (asks : List String) (cs : List PageBlock),
      (asks.map Frame.approvalAsk).foldl dispatchFrame cs = cs := by
    intro asks cs
    induction asks with
    | nil => rfl
    | cons _ _ ih => exact ih
  have hany : (bs ++ [PageBlock.toolCall ⟨call.id, call.name, call.arguments, "", "", .running⟩]).any
      (PageBlock.hasId call.id) = true := by simp [PageBlock.hasId]
  simp only [callFrames,List.foldl_append,List.foldl_cons,List.foldl_nil,hasks,toolEndFrame_eq,
    dispatchFrame,handleToolStart,handleToolEnd,if_pos hany]
  rfl

theorem live_runCalls (ctx : ToolContext) (steps : Nat → CallStep ρ) (calls : List ToolCall)
    (st : Executing ρ) :
    (runCalls host turn ctx steps calls st).live =
        (((logOf host turn ctx steps calls).take
          (Flags.ran turn.token steps calls.length st.flags).1).map
            (ToolRun.shown host.text)).foldl Shown.play st.live ∧
      (runCalls host turn ctx steps calls st).nextToolCallId = st.nextToolCallId := by
  induction calls generalizing steps st with
  | nil => exact ⟨rfl,rfl⟩
  | cons call calls ih =>
      have hu := unseen_pass turn (steps 0).before st
      simp only [runCalls,List.length_cons,Flags.ran,logOf,stopAsked_pass]
      split
      · exact ⟨hu.live,hu.next⟩
      · obtain ⟨hl,hn⟩ := ih (fun i => steps (i + 1))
          (runCall host turn ctx (steps 0) call (st.pass turn (steps 0).before))
        have hlive : (runCall host turn ctx (steps 0) call (st.pass turn (steps 0).before)).live =
            ((⟨call, (toolText host turn ctx (steps 0) call).1,
              (toolText host turn ctx (steps 0) call).2⟩ : ToolRun).shown host.text).play
                st.live := by
          rw [runCall_eq,← hu.live,← dispatch_callFrames (steps 0)]
          simp only [live,append,logRun]
          rw [← List.append_assoc,liveBlocks_append]
        rw [flags_runCall,hlive] at hl
        refine ⟨hl,hn.trans ?_⟩
        rw [runCall_eq,← hu.next]
        rfl

theorem live_runTools (round : Round ρ) (reply : ChatResult) (st : Executing ρ) :
    (runTools host turn round reply st).live =
        ((roundLog host turn round (calledAs host reply st) st).map
          (ToolRun.shown host.text)).foldl Shown.play st.live ∧
      (runTools host turn round reply st).nextToolCallId =
        (assignIds host st.nextToolCallId reply.toolCalls).2 := by
  obtain ⟨hl,hn⟩ := @live_runCalls ρ host turn ⟨st.userNote, st.peerOrigin⟩ round.steps
    (calledAs host reply st) (called host reply st)
  have hsame := @sameOutput_runTools ρ host turn round reply st
  have hlive : (runTools host turn round reply st).live = (ranCalls host turn round reply st).live := by
    rw [live,live,hsame.earlier,hsame.frames]
  exact ⟨hlive.trans hl,hsame.nextToolCallId.trans hn⟩

def actOf (host : Host) (turn : Turn ρ) (budget : Budgeted) (round : Round ρ) (reply : ChatResult)
    (st : Executing ρ) : Act where
  pieces := round.reply.pieces
  log := roundLog host turn round (calledAs host reply st) st
  payloads := wrapUpPayloads (budget.reached && !budget.wrapUpAsked) ++
    (roundNodes host turn round reply st).map MessageNode.payload

theorem payloads_wrapUpNodes (host : Host) (budget : Budgeted) (st : Executing ρ) :
    (wrapUpNodes host budget st).map MessageNode.payload =
      wrapUpPayloads (budget.reached && !budget.wrapUpAsked) := by
  unfold wrapUpNodes wrapUpPayloads
  cases budget.reached <;> cases budget.wrapUpAsked <;> rfl

theorem length_records_completeAll (ids : List String) (n : MessageNode) :
    (completeAll ids n).payload.records.length = n.payload.records.length := by
  have hone : ∀ (id : String) (rs : List ToolCallRecord),
      (completeRecord id rs).length = rs.length := by
    intro id rs
    have hlen := congrArg List.length (asked_completeRecord id rs)
    simpa using hlen
  rw [records_completeAll]
  generalize n.payload.records = rs
  induction ids generalizing rs with
  | nil => rfl
  | cons id ids ih => rw [List.foldl_cons,ih,hone]

theorem length_records_roundNodes (round : Round ρ) (reply : ChatResult) (st : Executing ρ) :
    (((roundNodes host turn round reply st).map MessageNode.payload).flatMap
      MessagePayload.records).length = (calledAs host reply st).length := by
  have hcall : (callNode host reply st).payload.records.length =
      (calledAs host reply st).length := by
    simp [callNode,assistantNode,MessagePayload.records]
  unfold roundNodes
  split
  · rw [cancelledRound,List.map_cons,List.flatMap_cons,
      records_none (records_receiptNodes _ _ _),List.append_nil,records_interruptNode,
      List.length_map,hcall]
  · rw [ranRound,List.map_cons,List.flatMap_cons,
      records_none (records_written host _ _ (role_messages _)),List.append_nil,
      length_records_completeAll,hcall]

theorem assistants_roundNodes (round : Round ρ) (reply : ChatResult) (st : Executing ρ) :
    ∃ recs : List ToolCallRecord, recs.map ToolCallRecord.asked = calledAs host reply st ∧
      ((roundNodes host turn round reply st).map MessageNode.payload).filterMap
        MessagePayload.assistant? = [⟨reply.content, reply.reasoning, recs⟩] := by
  unfold roundNodes
  split
  · refine ⟨((calledAs host reply st).map ToolCall.record).map interrupt,?_,?_⟩
    · rw [asked_interrupt,toolCall_asked_record]
    · rw [cancelledRound,List.map_cons,List.filterMap_cons,assistants_receiptNodes]
      rfl
  · obtain ⟨recs,hrecs,hpay⟩ := @payload_completeAll
      ((roundLog host turn round (calledAs host reply st) st).map ToolRun.id)
      (callNode host reply st) _ rfl
    refine ⟨recs,hrecs.trans (toolCall_asked_record _),?_⟩
    rw [ranRound,List.map_cons,List.filterMap_cons,hpay,payloads_written,
      assistants_toPayload host.text (role_messages _)]
    rfl

theorem assistants_wrapUpPayloads (wrapUp : Bool) :
    (wrapUpPayloads wrapUp).filterMap MessagePayload.assistant? = [] := by
  cases wrapUp <;> rfl

theorem payloads_noteMessages (text : JsonText) (token : Bool) (note : String) :
    (noteMessages token note).map (toPayload text) =
      notePayloads (if token then note else "") := by
  unfold noteMessages notePayloads
  cases token with
  | false => simp
  | true =>
      by_cases hn : note = ""
      · simp [hn]
      · simp [hn]
        rfl

theorem acted_actOf (hr : round.reply.chat = .ok reply) (hne : reply.toolCalls ≠ [])
    (budget : Budgeted) (hc : st.cancelled = round.opened turn.token cancelled) :
    Acted host.text (round.saidAs host turn.token cancelled
        (budget.reached && !budget.wrapUpAsked) st.nextToolCallId reply)
      (actOf host turn budget round reply st) := by
  have hpos := @length_calledAs_pos ρ host st reply hne
  have hlen : (calledAs host reply st).length = round.calls.length := by
    rw [calledAs,length_assignIds,calls_eq hr]
  have hflags : roundFlags turn round (calledAs host reply st).length st =
      Flags.ran turn.token round.steps round.calls.length
        ⟨round.opened turn.token cancelled, ""⟩ := by
    rw [roundFlags,hlen,hc]
  have hran : (round.ranOut turn.token cancelled).ran =
      (roundFlags turn round (calledAs host reply st).length st).1 := by
    rw [hflags]
    rfl
  have hlog := length_roundLog host turn round (calledAs host reply st) st
  refine ⟨rfl,?_,?_,?_,?_,?_,?_⟩
  · intro hnil
    have hz : (calledAs host reply st).length = 0 := congrArg List.length hnil
    omega
  · change (roundLog host turn round (calledAs host reply st) st).map ToolRun.call =
      (calledAs host reply st).take (round.ranOut turn.token cancelled).ran
    rw [map_call_roundLog,hlog,hran]
  · change (round.ranOut turn.token cancelled).ran ≤ (calledAs host reply st).length
    rw [hran]
    exact Flags.ran_le _ _ _
  · change ((actOf host turn budget round reply st).payloads.flatMap
      MessagePayload.records).length = (calledAs host reply st).length
    rw [actOf,List.flatMap_append,List.length_append,length_records_roundNodes]
    unfold wrapUpPayloads
    split <;> simp [MessagePayload.records]
  · obtain ⟨recs,hrecs,hpay⟩ := @assistants_roundNodes ρ host turn round reply st
    refine ⟨recs,hrecs,?_⟩
    rw [actOf,List.filterMap_append,assistants_wrapUpPayloads,hpay]
    rfl
  · intro hall
    have hfull : (roundFlags turn round (calledAs host reply st).length st).1 =
        (calledAs host reply st).length := hran.symm.trans hall
    have hnz : ¬ ((roundFlags turn round (calledAs host reply st).length st).1 = 0 ∧
        roundNote turn round (calledAs host reply st).length st = "") := by
      rintro ⟨hz,_⟩
      omega
    obtain ⟨recs,hrecs,hpay⟩ := @payload_completeAll
      ((roundLog host turn round (calledAs host reply st) st).map ToolRun.id)
      (callNode host reply st) _ rfl
    refine ⟨recs,hrecs.trans (toolCall_asked_record _),?_⟩
    have hnote : (if turn.token then roundNote turn round (calledAs host reply st).length st
        else "") = round.noteAfter turn.token cancelled := by
      rw [roundNote,hflags]
      rfl
    simp only [actOf,roundNodes,if_neg hnz,ranRound,List.map_cons,payloads_written,
      List.map_append,List.map_map,payloads_noteMessages,hnote,hpay]
    rfl

structure Played (host : Host) (o : Outline) (st st' : Executing ρ) (acts : List Act) : Prop where
  acted : List.Forall₂ (Acted host.text) o.saids acts
  live : st'.live = o.pieces.foldl showPiece (acts.foldl (Act.play host.text) st.live)
  payloads : st'.payloads = st.payloads ++ (acts.flatMap Act.payloads ++ wrapUpPayloads o.wrapUp)
  ready : Ready host st'

theorem Played.stay (h : Ready host st') (hc : st'.chain = st.chain) (hl : st'.live = st.live) :
    Played host {} st st' [] :=
  ⟨.nil,hl,by rw [Executing.payloads,hc]; exact (List.append_nil _).symm,h⟩

theorem Played.last {budget : Budgeted} (h : Ready host st')
    (hc : st'.chain = st.chain ++ wrapUpNodes host budget st)
    (hl : st'.live = round.reply.pieces.foldl showPiece st.live) :
    Played host { pieces := round.reply.pieces, wrapUp := budget.reached && !budget.wrapUpAsked }
      st st' [] :=
  ⟨.nil,hl,by rw [Executing.payloads,hc,List.map_append,payloads_wrapUpNodes]; rfl,h⟩

theorem Played.of_eq {o : Outline} {acts : List Act} {st'' : Executing ρ}
    (h : Played host o st st' acts) (hc : st''.conversation = st'.conversation)
    (hd : st''.drawn = st'.drawn) (hl : st''.live = st'.live) : Played host o st st'' acts :=
  ⟨h.acted,hl.trans h.live,by rw [← h.payloads,Executing.payloads,chain,hc]; rfl,
    h.ready.of_eq hc hd⟩

theorem Played.cons {budget : Budgeted} {o : Outline} {acts : List Act} {said : Said}
    {st₁ st₂ : Executing ρ} (h : Played host o st₂ st' acts)
    (ha : Acted host.text said (actOf host turn budget round reply st₁))
    (hc : st₂.chain = st.chain ++ wrapUpNodes host budget st ++
      roundNodes host turn round reply st₁)
    (hl : st₂.live = (actOf host turn budget round reply st₁).play host.text st.live) :
    Played host { o with saids := said :: o.saids } st st'
      (actOf host turn budget round reply st₁ :: acts) where
  acted := .cons ha h.acted
  live := by rw [h.live,hl]; rfl
  payloads := by
    have hp : st₂.payloads = st.payloads ++ (actOf host turn budget round reply st₁).payloads := by
      rw [Executing.payloads,hc,List.map_append,List.map_append,payloads_wrapUpNodes,
        List.append_assoc]
      rfl
    rw [h.payloads,hp,List.flatMap_cons]
    simp
  ready := h.ready

section Asked

variable {rounds : List (Round ρ)} {budget : Budgeted} {count next : Nat}

theorem asked_chain {called : Called} (h : Ready host st)
    (hc : callProvider host turn round (asking host turn budget round st) = .ok (called, st'))
    (hquiet : Quiet turn st') :
    st'.chain = st.chain ++ wrapUpNodes host (checkBudget turn budget st) st ∧
      st'.live = round.reply.pieces.foldl showPiece st.live ∧
      st'.nextToolCallId = st.nextToolCallId ∧ Ready host st' := by
  obtain ⟨hchain,_,hready⟩ := chain_asked h hc hquiet
  obtain ⟨hlive,hnext⟩ := live_callProvider hc
  have hu := unseen_opened host turn (checkBudget turn budget st) round.opening st
  exact ⟨hchain,by rw [hlive,asking,hu.live],hnext.trans hu.next,hready⟩

theorem outline_over
    (hover : (checkBudget turn budget st).reached ∧ (checkBudget turn budget st).wrapUpAsked) :
    outline host turn.token turn.budget (round :: rounds) budget cancelled
      st.result.toolCallCount next = {} := by
  rw [outline]
  exact if_pos hover

theorem outline_last
    (hover : ¬ ((checkBudget turn budget st).reached ∧ (checkBudget turn budget st).wrapUpAsked))
    (hempty : round.calls.isEmpty = true) :
    outline host turn.token turn.budget (round :: rounds) budget cancelled
        st.result.toolCallCount next =
      { pieces := round.reply.pieces
        wrapUp := (checkBudget turn budget st).reached &&
          !(checkBudget turn budget st).wrapUpAsked } := by
  rw [outline]
  refine (if_neg hover).trans ?_
  unfold Round.calls at hempty
  cases hr : round.reply.chat with
  | error what => rfl
  | ok reply =>
      rw [hr] at hempty
      exact if_pos hempty

theorem outline_called
    (hover : ¬ ((checkBudget turn budget st).reached ∧ (checkBudget turn budget st).wrapUpAsked))
    (hc : callProvider host turn round (asking host turn budget round st) =
      .ok (.answered reply, st')) (hempty : ¬ reply.toolCalls.isEmpty = true)
    (hnext : st'.nextToolCallId = next) :
    outline host turn.token turn.budget (round :: rounds) budget st.cancelled
        st.result.toolCallCount next =
      { outline host turn.token turn.budget rounds ⟨(checkBudget turn budget st).reached,
          budget.wrapUpAsked || (checkBudget turn budget st).reached⟩
          (runTools host turn round reply st').cancelled
          (runTools host turn round reply st').result.toolCallCount
          (runTools host turn round reply st').nextToolCallId with
        saids := round.saidAs host turn.token st.cancelled ((checkBudget turn budget st).reached &&
            !(checkBudget turn budget st).wrapUpAsked) next reply ::
          (outline host turn.token turn.budget rounds ⟨(checkBudget turn budget st).reached,
            budget.wrapUpAsked || (checkBudget turn budget st).reached⟩
            (runTools host turn round reply st').cancelled
            (runTools host turn round reply st').result.toolCallCount
            (runTools host turn round reply st').nextToolCallId).saids } := by
  have hreply := answered_reply hc
  obtain ⟨hout,hran⟩ := ranOut_asked hc
  rw [hout,hran,(live_runTools round reply st').2,hnext,outline]
  refine (if_neg hover).trans ?_
  rw [hreply]
  exact if_neg hempty

end Asked

theorem played_runToolLoop (rounds : List (Round ρ)) (budget : Budgeted) (h : Ready host st)
    (hends : EndsPlain st.chain) (hret : (runToolLoop host turn rounds budget st).1 = .returned)
    (hq : Quiet turn (runToolLoop host turn rounds budget st).2) :
    ∃ acts, Played host (outline host turn.token turn.budget rounds budget st.cancelled
      st.result.toolCallCount st.nextToolCallId) st (runToolLoop host turn rounds budget st).2
        acts := by
  induction rounds generalizing budget st with
  | nil =>
      simp only [runToolLoop] at hret ⊢
      split
      · exact ⟨[],.stay (h.of_eq rfl rfl) rfl rfl⟩
      · exact ⟨[],.stay h rfl rfl⟩
  | cons round rounds ih =>
      cases looped host turn round rounds budget st with
      | threw hover hc heq =>
          rw [heq] at hret
          cases hret
      | spent hover heq =>
          rw [heq,outline_over hover]
          exact ⟨[],.stay (h.of_eq rfl rfl) rfl rfl⟩
      | failed hover hc heq =>
          rw [heq] at hq ⊢
          obtain ⟨hc₁,hl₁,_,hready⟩ := asked_chain h hc hq
          rw [outline_last hover (calls_of_failed hc (by simp))]
          have hlast := Played.last hready hc₁ hl₁
          exact ⟨[],hlast.of_eq rfl rfl rfl⟩
      | stopped hover hc heq =>
          rw [heq] at hq ⊢
          obtain ⟨hc₁,hl₁,_,hready⟩ := asked_chain h hc hq
          obtain ⟨init,n,hsplit,hnil⟩ := hends.append (fun n hn =>
            (plain_wrapUpNodes host (checkBudget turn budget st) st n hn).records)
          have hsilent := (sealCalls_silent hready (hc₁.trans hsplit) hnil).1
          rw [outline_last hover (calls_of_failed hc (by simp))]
          exact ⟨[],.last hready.sealCalls (hsilent.trans hc₁) hl₁⟩
      | abandoned hover hc heq =>
          rw [heq] at hq ⊢
          obtain ⟨hc₁,hl₁,_,hready⟩ := asked_chain h hc hq
          rw [outline_last hover (calls_of_failed hc (by simp))]
          exact ⟨[],.last hready hc₁ hl₁⟩
      | answered hover hc hempty heq =>
          rw [heq] at hq ⊢
          obtain ⟨hc₁,hl₁,_,hready⟩ := asked_chain h hc hq
          rw [outline_last hover (by rw [calls_eq (answered_reply hc)]; exact hempty)]
          have hlast := Played.last hready hc₁ hl₁
          exact ⟨[],hlast.of_eq rfl rfl rfl⟩
      | @called reply st₁ hover hc hempty heq =>
          rw [heq] at hret hq ⊢
          have hne : reply.toolCalls ≠ [] := by simpa using hempty
          have hran := hq.of_runToolLoop
          obtain ⟨hc₁,hl₁,hn₁,hready⟩ := asked_chain h hc hran.of_runTools
          obtain ⟨hchain,hready'⟩ := runTools_chain hready hne hran
          rw [hc₁] at hchain
          obtain ⟨acts,hplayed⟩ := ih _ hready'
            (by rw [hchain]; exact endsPlain_roundNodes hne _) hret hq
          have hacted := @acted_actOf ρ host turn st₁ round reply st.cancelled (answered_reply hc)
            hne (checkBudget turn budget st) (paces_asked hc).1
          rw [hn₁] at hacted
          rw [outline_called hover hc hempty hn₁]
          refine ⟨_,hplayed.cons hacted hchain ?_⟩
          rw [(live_runTools round reply st₁).1,hl₁]
          rfl

end Executing

end PuCli
