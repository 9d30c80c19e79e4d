import PuCli.Runtime.ExecutorSteps

namespace PuCli

open MessageGraph

structure Flags where
  cancelled : Bool
  userNote : String

namespace Flags

variable {ρ : Type}

def pass (token : Bool) (f : Flags) (w : Window ρ) : Flags :=
  ⟨f.cancelled || (w.cancels && token), w.notes.getLast?.getD f.userNote⟩

def stopped (token : Bool) (f : Flags) : Bool := token && f.cancelled

def ran (token : Bool) (steps : Nat → CallStep ρ) : Nat → Flags → Nat × Flags
  | 0, f => (0, f)
  | n + 1, f =>
      let f := f.pass token (steps 0).before
      if f.stopped token then (0, f)
      else
        let rest := ran token (fun i => steps (i + 1)) n f
        (rest.1 + 1, rest.2)

variable {token : Bool} {f : Flags}

theorem ran_le (steps : Nat → CallStep ρ) (n : Nat) (f : Flags) :
    (ran token steps n f).1 ≤ n := by
  induction n generalizing steps f with
  | zero => exact Nat.le_refl 0
  | succ n ih =>
      simp only [ran]
      split
      · exact Nat.zero_le _
      · exact Nat.succ_le_succ (ih _ _)

theorem stopped_of_ran_lt (steps : Nat → CallStep ρ) (n : Nat) (f : Flags)
    (h : (ran token steps n f).1 < n) : (ran token steps n f).2.stopped token = true := by
  induction n generalizing steps f with
  | zero => exact absurd h (Nat.not_lt_zero _)
  | succ n ih =>
      simp only [ran] at h ⊢
      split at h
      · next hs => simp [hs]
      · next hs =>
          rw [if_neg hs]
          exact ih _ _ (Nat.lt_of_succ_lt_succ h)

theorem stopped_pass (w : Window ρ) (h : f.stopped token = true) :
    (f.pass token w).stopped token = true := by
  simp only [stopped,Bool.and_eq_true] at h
  simp [stopped,pass,h]

end Flags

def written (host : Host) (drawn : Nat) (parent : MessageId) : List ChatMessage → List MessageNode
  | [] => []
  | msg :: msgs =>
      ⟨host.newId drawn, msg.timestamp, toPayload host.text msg, parent⟩ ::
        written host (drawn + 1) (host.newId drawn) msgs

def completeAll (ids : List String) (n : MessageNode) : MessageNode :=
  ids.foldl (fun n id => completeRecordOf id n) n

def ToolRun.message (run : ToolRun) : ChatMessage := Executing.receipt run.call run.result

def ToolRun.id (run : ToolRun) : String := run.call.id

def assistantNode (host : Host) (drawn : Nat) (parent : MessageId) (reply : ChatResult)
    (calls : List ToolCall) : MessageNode :=
  ⟨host.newId drawn, "", .assistant ⟨reply.content, reply.reasoning, calls.map ToolCall.record⟩,
    parent⟩

def noteMessages (token : Bool) (note : String) : List ChatMessage :=
  if note ≠ "" ∧ token then [Executing.noteMessage note] else []

def cancelledRound (host : Host) (drawn : Nat) (node : MessageNode) : List MessageNode :=
  interruptNode node ::
    receiptNodes node.id (fun i => host.newId (drawn + 1 + i)) (unrun node.payload.records)

def ranRound (host : Host) (token : Bool) (drawn : Nat) (node : MessageNode) (log : List ToolRun)
    (note : String) : List MessageNode :=
  completeAll (log.map ToolRun.id) node ::
    written host (drawn + 1) node.id (log.map ToolRun.message ++ noteMessages token note)

def lastId (host : Host) (drawn : Nat) (parent : MessageId) : Nat → MessageId
  | 0 => parent
  | n + 1 => host.newId (drawn + n)

theorem lastId_succ (host : Host) (drawn : Nat) (parent : MessageId) (n : Nat) :
    lastId host (drawn + 1) (host.newId drawn) n = lastId host drawn parent (n + 1) := by
  cases n with
  | zero => rfl
  | succ n => simp [lastId,Nat.add_comm,Nat.add_left_comm]

theorem written_concat (host : Host) (drawn : Nat) (parent : MessageId) (ms : List ChatMessage)
    (msg : ChatMessage) :
    written host drawn parent (ms ++ [msg]) = written host drawn parent ms ++
      [⟨host.newId (drawn + ms.length), msg.timestamp, toPayload host.text msg,
        lastId host drawn parent ms.length⟩] := by
  induction ms generalizing drawn parent with
  | nil => rfl
  | cons m ms ih =>
      rw [List.cons_append,written,ih,written,List.cons_append,lastId_succ host drawn parent]
      simp [Nat.add_comm,Nat.add_left_comm]

theorem ids_completeRecord (callId : String) (rs : List ToolCallRecord) :
    (completeRecord callId rs).map ToolCallRecord.id = rs.map ToolCallRecord.id := by
  induction rs with
  | nil => rfl
  | cons r rs ih =>
      simp only [completeRecord]
      split
      · split <;> rfl
      · simp [ih]

theorem hasRecord_completeRecordOf (id callId : String) (n : MessageNode) :
    hasRecord id (completeRecordOf callId n) = hasRecord id n := by
  have hany : ∀ rs : List ToolCallRecord, rs.any (fun r => r.id = id) =
      (rs.map ToolCallRecord.id).any (fun i => i = id) := by
    intro rs
    simp [List.any_map,Function.comp_def]
  unfold completeRecordOf
  split
  · next p hp => simp only [hasRecord,hp,MessagePayload.records,hany,ids_completeRecord]
  · rfl

theorem answerIn_nearest {old new : List MessageNode} {n : MessageNode} {q : ToolPayload}
    (hid : q.toolCallId ≠ "") (hn : hasRecord q.toolCallId n = true)
    (hnew : ∀ m ∈ new, m.payload.records = []) :
    answerIn (.tool q) (old ++ n :: new) = old ++ completeRecordOf q.toolCallId n :: new := by
  have hskip : ∀ ms rest : List MessageNode, (∀ m ∈ ms, m.payload.records = []) →
      completeNearest q.toolCallId (ms ++ rest) = ms ++ completeNearest q.toolCallId rest := by
    intro ms rest hms
    induction ms with
    | nil => rfl
    | cons m ms ih =>
        have hm : hasRecord q.toolCallId m = false := by simp [hasRecord,hms m (by simp)]
        simp [completeNearest,hm,ih (fun x hx => hms x (List.mem_cons_of_mem _ hx))]
  have hrev : ∀ m ∈ new.reverse, m.payload.records = [] := fun m hm =>
    hnew m (List.mem_reverse.mp hm)
  simp only [answerIn,if_neg hid,List.reverse_append,List.reverse_cons,List.append_assoc]
  rw [hskip _ _ hrev]
  simp [completeNearest,hn]

namespace Executing

variable {ρ : Type} {host : Host} {turn : Turn ρ} {st st' : Executing ρ}

def flags (st : Executing ρ) : Flags := ⟨st.cancelled, st.userNote⟩

theorem flags_pass (turn : Turn ρ) (w : Window ρ) (st : Executing ρ) :
    (st.pass turn w).flags = st.flags.pass turn.token w := by
  have hs := servedOnly_requests turn w.requests st
  simp [flags,pass,Flags.pass,hs.cancelled,hs.userNote]

theorem runs_pass (turn : Turn ρ) (w : Window ρ) (st : Executing ρ) :
    (st.pass turn w).runs = st.runs ∧ (st.pass turn w).peerOrigin = st.peerOrigin :=
  ⟨(servedOnly_requests turn w.requests st).runs,
    (servedOnly_requests turn w.requests st).peerOrigin⟩

def logOf (host : Host) (turn : Turn ρ) (ctx : ToolContext) (steps : Nat → CallStep ρ) :
    List ToolCall → List ToolRun
  | [] => []
  | call :: calls =>
      ⟨call, (toolText host turn ctx (steps 0) call).1, (toolText host turn ctx (steps 0) call).2⟩ ::
        logOf host turn ctx (fun i => steps (i + 1)) calls

def callFrames (host : Host) (step : CallStep ρ) (call : ToolCall) (raw : String) : List Frame :=
  .toolStart call.id call.name call.arguments :: step.asks.map Frame.approvalAsk ++
    [toolEndFrame call raw (parseToolResult host.text raw)]

theorem sayAll_eq {α : Type} (frame : α → Frame) (as : List α) (st : Executing ρ) :
    as.foldl (fun st a => st.say (frame a)) st =
      { st with frames := st.frames ++ as.map frame } := by
  induction as generalizing st with
  | nil => simp
  | cons a as ih =>
      rw [List.foldl_cons,ih]
      simp [say]

def logRun (host : Host) (turn : Turn ρ) (ctx : ToolContext) (step : CallStep ρ) (call : ToolCall)
    (st : Executing ρ) : Executing ρ :=
  { st with
    result := countBlocked { st.result with toolCallCount := st.result.toolCallCount + 1 }
      (parseToolResult host.text (toolText host turn ctx step call).1)
    frames := st.frames ++ callFrames host step call (toolText host turn ctx step call).1
    runs := st.runs ++ [⟨call, (toolText host turn ctx step call).1,
      (toolText host turn ctx step call).2⟩] }

theorem runCall_eq (ctx : ToolContext) (step : CallStep ρ) (call : ToolCall) (st : Executing ρ) :
    runCall host turn ctx step call st = (logRun host turn ctx step call st).append host
      (receipt call (toolText host turn ctx step call).1) := by
  simp only [runCall,sayAll_eq]
  simp [say,callFrames,logRun]

theorem stopAsked_pass (turn : Turn ρ) (window : Window ρ) (st : Executing ρ) :
    (st.pass turn window).stopAsked turn =
      (st.flags.pass turn.token window).stopped turn.token := by
  rw [← flags_pass turn window st]
  rfl

theorem flags_runCall (ctx : ToolContext) (step : CallStep ρ) (call : ToolCall) (window : Window ρ)
    (st : Executing ρ) : (runCall host turn ctx step call (st.pass turn window)).flags =
      st.flags.pass turn.token window := by
  rw [runCall_eq,← flags_pass turn window st]
  rfl

theorem runCalls_frame (ctx : ToolContext) (steps : Nat → CallStep ρ) (calls : List ToolCall)
    (st : Executing ρ) :
    (runCalls host turn ctx steps calls st).flags =
        (Flags.ran turn.token steps calls.length st.flags).2 ∧
      (runCalls host turn ctx steps calls st).runs = st.runs ++
        (logOf host turn ctx steps calls).take
          (Flags.ran turn.token steps calls.length st.flags).1 ∧
      (runCalls host turn ctx steps calls st).peerOrigin = st.peerOrigin := by
  induction calls generalizing steps st with
  | nil => simp [runCalls,Flags.ran,logOf]
  | cons call calls ih =>
      have hp := flags_pass turn (steps 0).before st
      obtain ⟨hr,ho⟩ := runs_pass turn (steps 0).before st
      simp only [runCalls,List.length_cons,Flags.ran,logOf,stopAsked_pass]
      split
      · exact ⟨hp,by simp [hr],ho⟩
      · obtain ⟨hf,hruns,horigin⟩ := ih (fun i => steps (i + 1))
          (runCall host turn ctx (steps 0) call (st.pass turn (steps 0).before))
        rw [flags_runCall] at hf hruns
        refine ⟨hf,?_,?_⟩
        · rw [hruns,runCall_eq]
          simp [append,logRun,hr]
        · rw [horigin,runCall_eq,← ho]
          rfl

-- The calls of a round change the result in its three counts of calls only.
theorem runCalls_counts (ctx : ToolContext) (steps : Nat → CallStep ρ) (calls : List ToolCall)
    (st : Executing ρ) :
    ∃ count blocked unaskable, (runCalls host turn ctx steps calls st).result =
      { st.result with
        toolCallCount := count, blockedToolCalls := blocked, unaskableToolCalls := unaskable } := by
  induction calls generalizing steps st with
  | nil => exact ⟨_,_,_,rfl⟩
  | cons call calls ih =>
      have hp : (st.pass turn (steps 0).before).result = st.result := by rw [result_pass]
      simp only [runCalls]
      split
      · exact ⟨_,_,_,hp⟩
      · obtain ⟨count,blocked,unaskable,heq⟩ := ih (fun i => steps (i + 1))
          (runCall host turn ctx (steps 0) call (st.pass turn (steps 0).before))
        refine ⟨count,blocked,unaskable,heq.trans ?_⟩
        rw [runCall_eq]
        simp only [append,logRun,countBlocked,hp]
        split <;> rfl

def receiptNode (host : Host) (turn : Turn ρ) (ctx : ToolContext) (step : CallStep ρ)
    (call : ToolCall) (st : Executing ρ) : MessageNode :=
  ⟨host.newId st.drawn, "", toPayload host.text (receipt call (toolText host turn ctx step call).1),
    st.leaf⟩

theorem runCall_chain {old new : List MessageNode} {n : MessageNode} (h : Ready host st)
    (hc : st.chain = old ++ n :: new) (hnew : ∀ m ∈ new, m.payload.records = [])
    (ctx : ToolContext) (step : CallStep ρ) {call : ToolCall} (hid : call.id ≠ "")
    (hn : hasRecord call.id n = true) :
    (runCall host turn ctx step call st).chain = old ++ completeRecordOf call.id n ::
        (new ++ [receiptNode host turn ctx step call st]) ∧
      (runCall host turn ctx step call st).leaf = host.newId st.drawn ∧
      (runCall host turn ctx step call st).drawn = st.drawn + 1 ∧
      (runCall host turn ctx step call st).flags = st.flags ∧
      Ready host (runCall host turn ctx step call st) := by
  have hlog : Ready host (logRun host turn ctx step call st) := h.of_eq rfl rfl
  rw [runCall_eq]
  refine ⟨?_,rfl,rfl,rfl,hlog.append _⟩
  rw [chain_append hlog]
  change answerIn _ st.chain ++ _ = _
  have hpay : toPayload host.text (receipt call (toolText host turn ctx step call).1) =
      .tool ⟨call.id, call.name, (toolText host turn ctx step call).1,
        Origin.originOf host.text (toolText host turn ctx step call).1⟩ := rfl
  rw [hc,hpay,answerIn_nearest hid hn hnew]
  simp [receiptNode,toPayload,receipt,leaf,logRun]

theorem runCalls_chain {old new : List MessageNode} {n : MessageNode} (h : Ready host st)
    (hc : st.chain = old ++ n :: new) (hnew : ∀ m ∈ new, m.payload.records = [])
    (ctx : ToolContext) (steps : Nat → CallStep ρ)
    {calls : List ToolCall} (hcalls : ∀ call ∈ calls, call.id ≠ "" ∧ hasRecord call.id n = true)
    (hq : Quiet turn (runCalls host turn ctx steps calls st)) :
    (runCalls host turn ctx steps calls st).chain = old ++
        completeAll (((logOf host turn ctx steps calls).take
          (Flags.ran turn.token steps calls.length st.flags).1).map ToolRun.id) n ::
        (new ++ written host st.drawn st.leaf (((logOf host turn ctx steps calls).take
          (Flags.ran turn.token steps calls.length st.flags).1).map ToolRun.message)) ∧
      (runCalls host turn ctx steps calls st).drawn = st.drawn +
        (Flags.ran turn.token steps calls.length st.flags).1 ∧
      (runCalls host turn ctx steps calls st).leaf = lastId host st.drawn st.leaf
        (Flags.ran turn.token steps calls.length st.flags).1 ∧
      Ready host (runCalls host turn ctx steps calls st) := by
  induction calls generalizing st n new steps with
  | nil =>
      refine ⟨?_,rfl,rfl,h⟩
      simp [runCalls,Flags.ran,logOf,completeAll,written,hc]
  | cons call calls ih =>
      have hp := flags_pass turn (steps 0).before st
      simp only [runCalls,stopAsked_pass] at hq
      simp only [runCalls,List.length_cons,Flags.ran,logOf,stopAsked_pass]
      split at hq
      · next hstop =>
          obtain ⟨hconv,hdrawn⟩ := pass_unmoved hq
          rw [if_pos hstop,if_pos hstop]
          refine ⟨?_,hdrawn,?_,h.of_eq hconv hdrawn⟩
          · rw [chain,hconv]
            simp only [List.take_zero,List.map_nil,completeAll,List.foldl_nil,written,
              List.append_nil]
            exact hc
          · rw [leaf,hconv]
            rfl
      · next hstop =>
          rw [if_neg hstop,if_neg hstop]
          have hquiet : Quiet turn (st.pass turn (steps 0).before) := by
            by_contra hn
            have hs := @steady_disturbed ρ host turn
            exact hs.runCalls ctx _ calls (hs.runCall ctx (steps 0) call hn) hq
          obtain ⟨hconv,hdrawn⟩ := pass_unmoved hquiet
          have hready : Ready host (st.pass turn (steps 0).before) := h.of_eq hconv hdrawn
          have hpc : (st.pass turn (steps 0).before).chain = old ++ n :: new := by
            rw [← hc,chain,hconv]
            rfl
          obtain ⟨hid,hrec⟩ := hcalls call (by simp)
          obtain ⟨hchain,hleaf,hdr,hfl,hrd⟩ := runCall_chain hready hpc hnew ctx (steps 0) hid hrec
          have hmore : ∀ m ∈ new ++ [receiptNode host turn ctx (steps 0) call
              (st.pass turn (steps 0).before)], m.payload.records = [] := by
            intro m hm
            rcases List.mem_append.mp hm with hm | hm
            · exact hnew m hm
            · rw [List.mem_singleton.mp hm]
              rfl
          have hrest : ∀ c ∈ calls, c.id ≠ "" ∧
              hasRecord c.id (completeRecordOf call.id n) = true := by
            intro c hmem
            rw [hasRecord_completeRecordOf]
            exact hcalls c (List.mem_cons_of_mem _ hmem)
          obtain ⟨hch,hd,hlf,hready'⟩ := ih hrd hchain hmore (fun i => steps (i + 1)) hrest hq
          rw [hfl,hp] at hch hd hlf
          rw [hleaf,hdr,hdrawn] at hch hlf
          rw [hdr,hdrawn] at hd
          refine ⟨?_,by rw [hd]; omega,?_,hready'⟩
          swap
          · rw [hlf,lastId_succ]
          rw [hch]
          simp [completeAll,written,receiptNode,ToolRun.id,ToolRun.message,hdrawn,leaf,hconv]
          rfl

theorem assignIds_named (host : Host) (next : Nat) (calls : List ToolCall) :
    ∀ call ∈ (assignIds host next calls).1, call.id ≠ "" := by
  induction calls generalizing next with
  | nil => simp [assignIds]
  | cons call calls ih =>
      intro c hc
      simp only [assignIds] at hc
      split at hc
      · rcases List.mem_cons.mp hc with rfl | hc
        · simp [String.append_eq_empty_iff]
        · exact ih _ c hc
      · next hid =>
          rcases List.mem_cons.mp hc with rfl | hc
          · exact hid
          · exact ih _ c hc

theorem length_assignIds (host : Host) (next : Nat) (calls : List ToolCall) :
    (assignIds host next calls).1.length = calls.length := by
  induction calls generalizing next with
  | nil => rfl
  | cons call calls ih =>
      simp only [assignIds]
      split <;> simp [ih]

theorem toPayload_assistantTurn (text : JsonText) (reply : ChatResult) (calls : List ToolCall) :
    toPayload text (assistantTurn reply calls) =
      .assistant ⟨reply.content, reply.reasoning, calls.map ToolCall.record⟩ := by
  simp [toPayload,assistantTurn,Json.asArray,ToolCall.record,Function.comp_def]

theorem hasRecord_assistantNode (host : Host) (drawn : Nat) (parent : MessageId)
    (reply : ChatResult) {calls : List ToolCall} {call : ToolCall} (hc : call ∈ calls) :
    hasRecord call.id (assistantNode host drawn parent reply calls) = true := by
  simp only [hasRecord,assistantNode,MessagePayload.records,List.any_eq_true,decide_eq_true_eq]
  exact ⟨call.record,List.mem_map_of_mem hc,rfl⟩

def calledAs (host : Host) (reply : ChatResult) (st : Executing ρ) : List ToolCall :=
  (assignIds host st.nextToolCallId reply.toolCalls).1

def roundFlags (turn : Turn ρ) (round : Round ρ) (count : Nat) (st : Executing ρ) : Nat × Flags :=
  Flags.ran turn.token round.steps count ⟨st.cancelled, ""⟩

def roundNote (turn : Turn ρ) (round : Round ρ) (count : Nat) (st : Executing ρ) : String :=
  ((roundFlags turn round count st).2.pass turn.token round.closing).userNote

def roundLog (host : Host) (turn : Turn ρ) (round : Round ρ) (calls : List ToolCall)
    (st : Executing ρ) : List ToolRun :=
  (logOf host turn ⟨st.userNote, st.peerOrigin⟩ round.steps calls).take
    (roundFlags turn round calls.length st).1

theorem length_logOf (host : Host) (turn : Turn ρ) (ctx : ToolContext) (steps : Nat → CallStep ρ)
    (calls : List ToolCall) : (logOf host turn ctx steps calls).length = calls.length := by
  induction calls generalizing steps with
  | nil => rfl
  | cons call calls ih => simp [logOf,ih]

theorem map_call_logOf (host : Host) (turn : Turn ρ) (ctx : ToolContext)
    (steps : Nat → CallStep ρ) (calls : List ToolCall) :
    (logOf host turn ctx steps calls).map ToolRun.call = calls := by
  induction calls generalizing steps with
  | nil => rfl
  | cons call calls ih => simp [logOf,ih]

theorem length_roundLog (host : Host) (turn : Turn ρ) (round : Round ρ) (calls : List ToolCall)
    (st : Executing ρ) :
    (roundLog host turn round calls st).length = (roundFlags turn round calls.length st).1 := by
  rw [roundLog,List.length_take,length_logOf]
  exact Nat.min_eq_left (Flags.ran_le _ _ _)

theorem records_written (host : Host) (drawn : Nat) (parent : MessageId) {ms : List ChatMessage}
    (hms : ∀ m ∈ ms, m.role ≠ .assistant) :
    ∀ n ∈ written host drawn parent ms, n.payload.records = [] := by
  induction ms generalizing drawn parent with
  | nil => simp [written]
  | cons m ms ih =>
      intro n hn
      rcases List.mem_cons.mp hn with rfl | hn
      · have hm := hms m (by simp)
        cases hr : m.role with
        | assistant => exact absurd hr hm
        | _ => simp [toPayload,hr,MessagePayload.records]
      · exact ih _ _ (fun x hx => hms x (List.mem_cons_of_mem _ hx)) n hn

theorem role_noteMessages {token : Bool} {note : String} :
    ∀ m ∈ noteMessages token note, m.role ≠ .assistant := by
  intro m hm
  unfold noteMessages at hm
  split at hm
  · rw [List.mem_singleton.mp hm]
    simp [noteMessage]
  · simp at hm

theorem role_messages (log : List ToolRun) {token : Bool} {note : String} :
    ∀ m ∈ log.map ToolRun.message ++ noteMessages token note, m.role ≠ .assistant := by
  intro m hm
  rcases List.mem_append.mp hm with hm | hm
  · obtain ⟨run,_,rfl⟩ := List.mem_map.mp hm
    simp [ToolRun.message,receipt]
  · exact role_noteMessages m hm

theorem written_eq_concat (host : Host) (drawn : Nat) (parent : MessageId) {ms : List ChatMessage}
    (hne : ms ≠ []) : ∃ ns n, written host drawn parent ms = ns ++ [n] := by
  obtain ⟨init,last,rfl⟩ := List.eq_nil_or_concat ms |>.resolve_left hne
  rw [List.concat_eq_append,written_concat]
  exact ⟨_,_,rfl⟩

theorem leaveNote_chain (h : Ready host st) :
    (st.leaveNote host turn).chain = st.chain ++
        (noteMessages turn.token st.userNote).map (fun msg =>
          ⟨host.newId st.drawn, msg.timestamp, toPayload host.text msg, st.leaf⟩) ∧
      Ready host (st.leaveNote host turn) ∧
      (st.leaveNote host turn).drawn =
        st.drawn + (noteMessages turn.token st.userNote).length := by
  unfold leaveNote noteMessages
  split
  · have hr := h.append (noteMessage st.userNote)
    refine ⟨?_,hr.of_eq rfl rfl,rfl⟩
    change (st.append host (noteMessage st.userNote)).chain = _
    rw [chain_append h]
    rfl
  · exact ⟨by simp,h,rfl⟩

def called (host : Host) (reply : ChatResult) (st : Executing ρ) : Executing ρ :=
  { append host { st with nextToolCallId := (assignIds host st.nextToolCallId reply.toolCalls).2 }
      (assistantTurn reply (calledAs host reply st)) with userNote := "", peerOrigin := "" }

def callNode (host : Host) (reply : ChatResult) (st : Executing ρ) : MessageNode :=
  assistantNode host st.drawn st.leaf reply (calledAs host reply st)

def noted (host : Host) (turn : Turn ρ) (round : Round ρ) (reply : ChatResult)
    (st : Executing ρ) : Executing ρ :=
  ((runCalls host turn ⟨st.userNote, st.peerOrigin⟩ round.steps (calledAs host reply st)
    (called host reply st)).pass turn round.closing).leaveNote host turn

theorem runTools_eq (round : Round ρ) (reply : ChatResult) (st : Executing ρ) :
    runTools host turn round reply st =
      ((noted host turn round reply st).pass turn round.settling).sealIfStopped host turn := rfl

def ranCalls (host : Host) (turn : Turn ρ) (round : Round ρ) (reply : ChatResult)
    (st : Executing ρ) : Executing ρ :=
  runCalls host turn ⟨st.userNote, st.peerOrigin⟩ round.steps (calledAs host reply st)
    (called host reply st)

structure SameOutput (st st' : Executing ρ) : Prop where
  peerOrigin : st'.peerOrigin = st.peerOrigin
  nextToolCallId : st'.nextToolCallId = st.nextToolCallId
  result : st'.result = st.result
  earlier : st'.earlier = st.earlier
  frames : st'.frames = st.frames
  runs : st'.runs = st.runs

theorem SameOutput.trans {st'' : Executing ρ} (h : SameOutput st st') (h' : SameOutput st' st'') :
    SameOutput st st'' where
  peerOrigin := h'.peerOrigin.trans h.peerOrigin
  nextToolCallId := h'.nextToolCallId.trans h.nextToolCallId
  result := h'.result.trans h.result
  earlier := h'.earlier.trans h.earlier
  frames := h'.frames.trans h.frames
  runs := h'.runs.trans h.runs

theorem sameOutput_pass (turn : Turn ρ) (w : Window ρ) (st : Executing ρ) :
    SameOutput st (st.pass turn w) := by
  obtain ⟨-,-,horigin,hnext,hresult,hearlier,hframes,hruns⟩ := servedOnly_requests turn w.requests st
  exact ⟨horigin,hnext,hresult,hearlier,hframes,hruns⟩

theorem sameOutput_leaveNote (host : Host) (turn : Turn ρ) (st : Executing ρ) :
    SameOutput st (st.leaveNote host turn) := by
  unfold leaveNote
  split <;> exact ⟨rfl,rfl,rfl,rfl,rfl,rfl⟩

theorem sameOutput_sealIfStopped (host : Host) (turn : Turn ρ) (st : Executing ρ) :
    SameOutput st (st.sealIfStopped host turn) := by
  unfold sealIfStopped
  split <;> exact ⟨rfl,rfl,rfl,rfl,rfl,rfl⟩

-- After the calls of a round only the conversation and the note still change.
theorem sameOutput_runTools (round : Round ρ) (reply : ChatResult) (st : Executing ρ) :
    SameOutput (ranCalls host turn round reply st) (runTools host turn round reply st) := by
  have hnoted := (sameOutput_pass turn round.closing (ranCalls host turn round reply st)).trans
    (sameOutput_leaveNote host turn _)
  have hsettled := hnoted.trans (sameOutput_pass turn round.settling _)
  exact hsettled.trans (sameOutput_sealIfStopped host turn _)

theorem runTools_counts (host : Host) (turn : Turn ρ) (round : Round ρ) (reply : ChatResult)
    (st : Executing ρ) :
    ∃ count blocked unaskable, (runTools host turn round reply st).result =
      { st.result with
        toolCallCount := count, blockedToolCalls := blocked, unaskableToolCalls := unaskable } := by
  rw [(sameOutput_runTools round reply st).result]
  exact runCalls_counts _ _ _ (called host reply st)

theorem called_chain (h : Ready host st) (reply : ChatResult) :
    (called host reply st).chain = st.chain ++ [callNode host reply st] ∧
      Ready host (called host reply st) := by
  have hs : Ready host
      { st with nextToolCallId := (assignIds host st.nextToolCallId reply.toolCalls).2 } :=
    h.of_eq rfl rfl
  have ha := chain_append hs (assistantTurn reply (calledAs host reply st))
  rw [toPayload_assistantTurn] at ha
  exact ⟨ha,(hs.append _).of_eq rfl rfl⟩

theorem noted_chain {round : Round ρ} {reply : ChatResult} (h : Ready host st)
    (hq : Quiet turn (noted host turn round reply st)) :
    (noted host turn round reply st).chain = st.chain ++ ranRound host turn.token st.drawn
        (callNode host reply st) (roundLog host turn round (calledAs host reply st) st)
        (roundNote turn round (calledAs host reply st).length st) ∧
      Ready host (noted host turn round reply st) ∧
      (noted host turn round reply st).drawn = st.drawn + 1 +
        (roundFlags turn round (calledAs host reply st).length st).1 +
        (noteMessages turn.token (roundNote turn round (calledAs host reply st).length st)).length := by
  obtain ⟨hc,hr⟩ := called_chain h reply
  have hcalls : ∀ call ∈ calledAs host reply st, call.id ≠ "" ∧
      hasRecord call.id (callNode host reply st) = true := fun call hmem =>
    ⟨assignIds_named _ _ _ call hmem,hasRecord_assistantNode _ _ _ _ hmem⟩
  set ran := runCalls host turn ⟨st.userNote, st.peerOrigin⟩ round.steps (calledAs host reply st)
    (called host reply st) with hran
  have hqc : Quiet turn (ran.pass turn round.closing) := Quiet.of_leaveNote hq
  obtain ⟨hch,hd,hl,hready⟩ := runCalls_chain hr hc (by simp) _ _ hcalls hqc.of_pass
  have hf := (@runCalls_frame ρ host turn ⟨st.userNote, st.peerOrigin⟩ round.steps
    (calledAs host reply st) (called host reply st)).1
  obtain ⟨hconv,hdrawn⟩ := pass_unmoved hqc
  have hpass : Ready host (ran.pass turn round.closing) := hready.of_eq hconv hdrawn
  obtain ⟨hnote,hfinal,hdfinal⟩ := @leaveNote_chain ρ host turn _ hpass
  have huser : (ran.pass turn round.closing).userNote =
      roundNote turn round (calledAs host reply st).length st := by
    have := flags_pass turn round.closing ran
    rw [hran,hf] at this
    exact congrArg Flags.userNote this
  have hlen : (Flags.ran turn.token round.steps (calledAs host reply st).length
      (called host reply st).flags).1 = (roundLog host turn round (calledAs host reply st) st).length :=
    (length_roundLog host turn round (calledAs host reply st) st).symm
  have hpc : (ran.pass turn round.closing).chain = st.chain ++
      completeAll ((roundLog host turn round (calledAs host reply st) st).map ToolRun.id)
        (callNode host reply st) :: written host (st.drawn + 1) (callNode host reply st).id
          ((roundLog host turn round (calledAs host reply st) st).map ToolRun.message) := by
    rw [chain,hconv]
    exact hch
  have hdr : (ran.pass turn round.closing).drawn = st.drawn + 1 +
      (roundLog host turn round (calledAs host reply st) st).length := by
    rw [hdrawn,← hlen]
    exact hd
  have hlf : (ran.pass turn round.closing).leaf = lastId host (st.drawn + 1)
      (callNode host reply st).id (roundLog host turn round (calledAs host reply st) st).length := by
    rw [leaf,hconv,← hlen]
    exact hl
  refine ⟨?_,hfinal,?_⟩
  swap
  · change ((ran.pass turn round.closing).leaveNote host turn).drawn = _
    rw [hdfinal,hdr,huser,length_roundLog]
  change ((ran.pass turn round.closing).leaveNote host turn).chain = _
  rw [hnote,hpc,hdr,hlf,huser,ranRound]
  unfold noteMessages
  split
  · rw [written_concat]
    simp
  · simp

theorem flags_leaveNote_cancelled (st : Executing ρ) :
    (st.leaveNote host turn).cancelled = st.cancelled := by
  unfold leaveNote
  split <;> rfl

theorem cancelled_noted (round : Round ρ) (reply : ChatResult) (st : Executing ρ) :
    (noted host turn round reply st).cancelled = ((roundFlags turn round
      (calledAs host reply st).length st).2.pass turn.token round.closing).cancelled := by
  have hf := (@runCalls_frame ρ host turn ⟨st.userNote, st.peerOrigin⟩ round.steps
    (calledAs host reply st) (called host reply st)).1
  have hp := flags_pass turn round.closing (runCalls host turn ⟨st.userNote, st.peerOrigin⟩
    round.steps (calledAs host reply st) (called host reply st))
  rw [hf] at hp
  rw [noted,flags_leaveNote_cancelled]
  exact congrArg Flags.cancelled hp

def roundNodes (host : Host) (turn : Turn ρ) (round : Round ρ) (reply : ChatResult)
    (st : Executing ρ) : List MessageNode :=
  if (roundFlags turn round (calledAs host reply st).length st).1 = 0 ∧
      roundNote turn round (calledAs host reply st).length st = "" then
    cancelledRound host st.drawn (callNode host reply st)
  else ranRound host turn.token st.drawn (callNode host reply st)
    (roundLog host turn round (calledAs host reply st) st)
    (roundNote turn round (calledAs host reply st).length st)

theorem leaf_of_chain {ns : List MessageNode} {n : MessageNode} (h : Ready host st)
    (hc : st.chain = ns ++ [n]) : st.leaf = n.id := by
  have hlast := chain_getLast? h.sound
  change st.chain.getLast? = _ at hlast
  rw [hc,List.getLast?_concat] at hlast
  exact (h.sound.keyed hlast.symm).symm

theorem stopped_of_ran_zero {round : Round ρ} {count : Nat} (hpos : 0 < count)
    (hz : (roundFlags turn round count st).1 = 0) :
    ((roundFlags turn round count st).2.pass turn.token round.closing).stopped turn.token =
      true := by
  refine Flags.stopped_pass _ (Flags.stopped_of_ran_lt _ _ _ ?_)
  unfold roundFlags at hz
  omega

theorem length_calledAs_pos {reply : ChatResult} (hne : reply.toolCalls ≠ []) :
    0 < (calledAs host reply st).length := by
  rw [calledAs,length_assignIds]
  exact List.length_pos_iff.mpr hne

theorem messages_ne_nil {round : Round ρ} {reply : ChatResult} (hne : reply.toolCalls ≠ [])
    (hz : ¬ ((roundFlags turn round (calledAs host reply st).length st).1 = 0 ∧
      roundNote turn round (calledAs host reply st).length st = "")) :
    (roundLog host turn round (calledAs host reply st) st).map ToolRun.message ++
      noteMessages turn.token (roundNote turn round (calledAs host reply st).length st) ≠ [] := by
  intro hnil
  obtain ⟨hlog,hnote⟩ := List.append_eq_nil_iff.mp hnil
  have hzero : (roundFlags turn round (calledAs host reply st).length st).1 = 0 := by
    rw [← length_roundLog host,List.map_eq_nil_iff.mp hlog,List.length_nil]
  have hst := stopped_of_ran_zero (length_calledAs_pos hne) hzero
  simp only [Flags.stopped,Bool.and_eq_true] at hst
  refine hz ⟨hzero,?_⟩
  by_contra hn
  simp [noteMessages,hn,hst.1] at hnote

theorem stopAsked_settled {round : Round ρ} {reply : ChatResult} (hne : reply.toolCalls ≠ [])
    (hz : (roundFlags turn round (calledAs host reply st).length st).1 = 0) :
    ((noted host turn round reply st).pass turn round.settling).stopAsked turn = true := by
  have hn : (noted host turn round reply st).flags.stopped turn.token = true := by
    change (turn.token && (noted host turn round reply st).cancelled) = true
    rw [cancelled_noted]
    exact stopped_of_ran_zero (length_calledAs_pos hne) hz
  have hp := Flags.stopped_pass round.settling hn
  rw [← flags_pass] at hp
  exact hp

theorem sealIfStopped_silent {ns : List MessageNode} {n : MessageNode} (h : Ready host st)
    (hc : st.chain = ns ++ [n]) (hn : n.payload.records = []) :
    (st.sealIfStopped host turn).chain = st.chain ∧ Ready host (st.sealIfStopped host turn) := by
  unfold sealIfStopped
  split
  · exact ⟨(sealCalls_silent h hc hn).1,h.sealCalls⟩
  · exact ⟨rfl,h⟩

theorem ranRound_concat {round : Round ρ} {reply : ChatResult} (hne : reply.toolCalls ≠ [])
    (hz : ¬ ((roundFlags turn round (calledAs host reply st).length st).1 = 0 ∧
      roundNote turn round (calledAs host reply st).length st = "")) :
    ∃ ns n, ranRound host turn.token st.drawn (callNode host reply st)
        (roundLog host turn round (calledAs host reply st) st)
        (roundNote turn round (calledAs host reply st).length st) = ns ++ [n] ∧
      n.payload.records = [] := by
  obtain ⟨ns,n,hw⟩ := written_eq_concat host (st.drawn + 1) (callNode host reply st).id
    (messages_ne_nil hne hz)
  have hall := records_written host (st.drawn + 1) (callNode host reply st).id
    (@role_messages (roundLog host turn round (calledAs host reply st) st) turn.token
      (roundNote turn round (calledAs host reply st).length st))
  rw [hw] at hall
  refine ⟨completeAll ((roundLog host turn round (calledAs host reply st) st).map ToolRun.id)
    (callNode host reply st) :: ns,n,?_,hall n (by simp)⟩
  rw [ranRound,hw]
  rfl

theorem runTools_chain {round : Round ρ} {reply : ChatResult} (h : Ready host st)
    (hne : reply.toolCalls ≠ []) (hq : Quiet turn (runTools host turn round reply st)) :
    (runTools host turn round reply st).chain =
        st.chain ++ roundNodes host turn round reply st ∧
      Ready host (runTools host turn round reply st) := by
  rw [runTools_eq] at hq ⊢
  have hqs : Quiet turn ((noted host turn round reply st).pass turn round.settling) :=
    Quiet.of_sealIfStopped hq
  obtain ⟨hch,hready,hdrawn⟩ := noted_chain h hqs.of_pass
  obtain ⟨hconv,hdr⟩ := pass_unmoved hqs
  have hstop := @stopAsked_settled ρ host turn st round reply hne
  set settled := (noted host turn round reply st).pass turn round.settling with hsettled
  have hrs : Ready host settled := hready.of_eq hconv hdr
  have hcs : settled.chain = (noted host turn round reply st).chain := by
    rw [chain,hconv]
    rfl
  rw [hch] at hcs
  unfold roundNodes
  split
  · next hz =>
      have hone : settled.chain = st.chain ++ [callNode host reply st] := by
        have hlog : roundLog host turn round (calledAs host reply st) st = [] :=
          List.eq_nil_of_length_eq_zero (by rw [length_roundLog,hz.1])
        rw [hcs,ranRound,hlog,hz.2]
        simp [completeAll,noteMessages,written]
      have hd : settled.drawn = st.drawn + 1 := by
        rw [hdr,hdrawn,hz.1,hz.2]
        simp [noteMessages]
      obtain ⟨hseal,_⟩ := chain_sealCalls hrs hone
      rw [sealIfStopped,if_pos (hstop hz.1)]
      refine ⟨?_,hrs.sealCalls⟩
      rw [hseal,leaf_of_chain hrs hone,hd]
      rfl
  · next hz =>
      obtain ⟨ns,n,hran,hrec⟩ := ranRound_concat hne hz
      have hlast : settled.chain = (st.chain ++ ns) ++ [n] := by
        rw [hcs,hran,List.append_assoc]
      rw [← hcs]
      exact sealIfStopped_silent hrs hlast hrec

structure SameRuns (st st' : Executing ρ) : Prop where
  runs : st'.runs = st.runs
  origin : st'.peerOrigin = st.peerOrigin

theorem SameRuns.refl (st : Executing ρ) : SameRuns st st := ⟨rfl,rfl⟩

theorem SameRuns.trans {st'' : Executing ρ} (h : SameRuns st st') (h' : SameRuns st' st'') :
    SameRuns st st'' := ⟨h'.runs.trans h.runs,h'.origin.trans h.origin⟩

theorem SameRuns.foldl {α : Type} {f : Executing ρ → α → Executing ρ}
    (hf : ∀ st a, SameRuns st (f st a)) (as : List α) (st : Executing ρ) :
    SameRuns st (as.foldl f st) := by
  induction as generalizing st with
  | nil => exact .refl st
  | cons a as ih => exact (hf st a).trans (ih (f st a))

theorem sameRuns_pass (turn : Turn ρ) (w : Window ρ) (st : Executing ρ) :
    SameRuns st (st.pass turn w) := by
  obtain ⟨hr,ho⟩ := runs_pass turn w st
  exact ⟨hr,ho⟩

theorem sameRuns_heard (turn : Turn ρ) (round : Round ρ) (st : Executing ρ) :
    SameRuns st (heard turn round st) := by
  refine SameRuns.trans (.foldl ?_ round.reply.pieces st) (sameRuns_pass turn round.calling _)
  intro st piece
  cases piece <;> (simp only [receive]; split <;> exact ⟨rfl,rfl⟩)

theorem sameRuns_opened (host : Host) (turn : Turn ρ) (budget : Budgeted) (w : Window ρ)
    (st : Executing ρ) : SameRuns st ((st.pass turn w).askWrapUp host budget).openRound := by
  refine (sameRuns_pass turn w st).trans ?_
  unfold askWrapUp
  split <;> exact ⟨rfl,rfl⟩

theorem sameRuns_callProvider {called : Called} {round : Round ρ}
    (hc : callProvider host turn round st = .ok (called, st')) : SameRuns st st' := by
  have hh := sameRuns_heard turn round st
  obtain ⟨reply,_,_,rfl⟩ | ⟨what,_,⟨_,_,rfl⟩ | ⟨_,_,_,rfl⟩ | ⟨_,_,_,rfl⟩⟩ := callProvider_cases hc
  · exact hh.trans ⟨rfl,rfl⟩
  · exact hh
  · exact hh
  · exact hh.trans ⟨rfl,rfl⟩

theorem answered_reply {reply : ChatResult} {round : Round ρ}
    (hc : callProvider host turn round st = .ok (.answered reply, st')) :
    round.reply.chat = .ok reply := by
  obtain ⟨r,hr,he,_⟩ | ⟨_,_,⟨he,_⟩ | ⟨he,_⟩ | ⟨he,_⟩⟩ := callProvider_cases hc
  · cases he
    exact hr
  all_goals cases he

theorem runs_runTools (round : Round ρ) (reply : ChatResult) (st : Executing ρ) :
    (runTools host turn round reply st).runs =
        st.runs ++ roundLog host turn round (calledAs host reply st) st ∧
      (runTools host turn round reply st).peerOrigin = "" := by
  obtain ⟨_,hruns,horigin⟩ := @runCalls_frame ρ host turn ⟨st.userNote, st.peerOrigin⟩ round.steps
    (calledAs host reply st) (called host reply st)
  have hsame := @sameOutput_runTools ρ host turn round reply st
  exact ⟨hsame.runs.trans hruns,hsame.peerOrigin.trans horigin⟩

end Executing

end PuCli
