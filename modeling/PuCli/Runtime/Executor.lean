import PuCli.Llm.Provider
import PuCli.Tools.PeerTool
import PuCli.Session.Conversation

namespace PuCli

open Json

inductive Frame where
  | chunk (text : String)
  | thinking (text : String)
  | toolStart (id name : String) (args : Json)
  | toolEnd (id name : String) (args : Json) (output error : String)
  | approvalAsk (command : String)
  | notice (text : String)
  | usage (recorded : Option TurnUsage)
  | error (text : String)
  | done (model : String)
  deriving DecidableEq

inductive TurnOutcome where
  | completed
  | failed
  | toolBudgetReached
  deriving DecidableEq

structure ExecutionResult where
  content : String := ""
  wasStreamed : Bool := false
  toolCallCount : Nat := 0
  usage : Option TokenUsage := none
  rounds : Nat := 0
  notice : String := ""
  shapeNotes : List String := []
  model : String := ""
  outcome : TurnOutcome := .completed
  hasError : Bool := false
  errorMessage : String := ""
  blockedToolCalls : Nat := 0
  unaskableToolCalls : Nat := 0
  onlyBlockedCalls : Bool := false
  onlyUnaskableCalls : Bool := false
  deriving DecidableEq

structure Host where
  text : JsonText
  newId : Nat → MessageId
  timestamp : Nat → String
  clock : Nat → String
  environment : String
  toFloat : Double → Double

structure Window (ρ : Type) where
  cancels : Bool := false
  notes : List String := []
  requests : List ρ := []

structure CallStep (ρ : Type) where
  before : Window ρ := {}
  asks : List String := []
  answer : ToolAnswer

structure Round (ρ : Type) where
  opening : Window ρ := {}
  calling : Window ρ := {}
  reply : Provided
  shutdown : Bool := false
  steps : Nat → CallStep ρ
  closing : Window ρ := {}
  settling : Window ρ := {}

structure Script (ρ : Type) where
  rounds : List (Round ρ)
  leaving : Window ρ := {}

structure ToolRun where
  call : ToolCall
  result : String
  posts : List Post

structure Turn (ρ : Type) where
  toolbox : Toolbox
  token : Bool
  systemPrompt : String
  budget : Int
  serve : Conversation → ρ → Conversation

structure Executing (ρ : Type) where
  conversation : Conversation
  drawn : Nat
  cancelled : Bool := false
  userNote : String := ""
  peerOrigin : String := ""
  nextToolCallId : Nat := 0
  result : ExecutionResult := {}
  earlier : List Frame := []
  frames : List Frame := []
  runs : List ToolRun := []
  served : List (Conversation × ρ) := []

def joinQuoted (names : List String) : String :=
  String.intercalate ", " (names.map (fun name => "\"" ++ name ++ "\""))

def stopNotice (finishReason : String) : String :=
  if finishReason = "length" then
    "The reply stopped at a token limit, so it may be incomplete. Set " ++
    "max_tokens for this backend to lengthen it, or leave it unset to use the " ++
    "provider's own limit."
  else if finishReason = "content_filter" then
    "The provider stopped the reply because its content filter matched."
  else ""

def readableError (what : String) : String :=
  let chars := what.toList
  match chars.findIdx? (fun c => c = '[') with
  | none => what
  | some opened =>
      match (chars.drop opened).findIdx? (fun c => c = ']') with
      | none => what
      | some closed =>
          let kept := (chars.take opened).reverse.dropWhile (fun c => c = ' ' ∨ c = ':') |>.reverse
          let rest := (chars.drop (opened + closed + 1)).dropWhile (fun c => c = ' ')
          if rest.isEmpty then String.ofList kept
          else if kept.isEmpty then String.ofList rest
          else String.ofList (kept ++ ' ' :: rest)

def addCost (total : Option Cost) (cost : Option Cost) : Option Cost :=
  match cost, total with
  | some c, none => some c
  | some c, some t => if t.unit = c.unit then some ⟨t.amount + c.amount, t.unit⟩ else some t
  | none, _ => none

def addUsage (total : Option TokenUsage) (usage : TokenUsage) : TokenUsage :=
  let t := total.getD {}
  { promptTokens := t.promptTokens + usage.promptTokens
    completionTokens := t.completionTokens + usage.completionTokens
    totalTokens := t.totalTokens + usage.totalTokens
    cachedTokens := t.cachedTokens + usage.cachedTokens
    cost := addCost t.cost usage.cost }

def missingNote (fields : List String) : String :=
  "the reply never carried " ++ joinQuoted fields ++
    "; this build reads a name the gateway no longer sends"

def ExecutionResult.noteReply (r : ExecutionResult) (reply : ChatResult) : ExecutionResult :=
  let r := match reply.usage with
    | none => r
    | some usage => { r with usage := some (addUsage r.usage usage) }
  if reply.missingFields.isEmpty then r
  else { r with shapeNotes := r.shapeNotes ++ [missingNote reply.missingFields] }

def kWrapUp : String :=
  "[system] The tool-call budget for this turn is exhausted. Do not call any " ++
  "more tools; answer now from what you have gathered so far."

def kBudgetReached : String :=
  "The tool-call budget for this turn was reached without a final answer. " ++
  "Please rephrase your request or narrow the scope, or raise the budget with " ++
  "the tool_call_budget agent setting."

def kOnlyUnaskable : String :=
  "Every tool call this turn made needed approval, and nothing here can ask: " ++
  "give the agent a command that needs none, or take it off approval_patterns."

def kOnlyBlocked : String :=
  "Every tool call this turn made was refused by the sandbox; nothing ran."

def kEmptyResponse : String :=
  "Model returned an empty response without any tool calls. " ++
  "Please check the backend service or try again."

def joinNotes (notice : String) (notes : List String) : String :=
  notes.foldl (fun notice note => (if notice = "" then notice else notice ++ "\n") ++ note) notice

def ExecutionResult.conclude (r : ExecutionResult) (budgetReached : Bool) : ExecutionResult :=
  if budgetReached ∧ r.content = "" then
    { r with outcome := .toolBudgetReached, content := kBudgetReached, hasError := true }
  else if r.content = "" ∧ 0 < r.blockedToolCalls ∧ r.blockedToolCalls = r.toolCallCount then
    let unaskable := decide (r.unaskableToolCalls = r.blockedToolCalls)
    let r := { r with onlyBlockedCalls := true, onlyUnaskableCalls := unaskable }
    if r.hasError then r
    else { r with hasError := true, errorMessage := if unaskable then kOnlyUnaskable else kOnlyBlocked }
  else if ¬ r.hasError ∧ r.content = "" ∧ r.toolCallCount = 0 then
    { r with hasError := true, errorMessage := kEmptyResponse }
  else { r with notice := joinNotes r.notice r.shapeNotes }

def answerOf (reply : ChatResult) : String :=
  let reasoning := projectReasoningText reply.reasoning
  if reply.content = "" ∧ reasoning ≠ "" then reasoning else reply.content

def ExecutionResult.answer (r : ExecutionResult) (reply : ChatResult) : ExecutionResult :=
  { r with
    content := answerOf reply
    notice := stopNotice reply.finishReason
    model := if reply.model = "" then r.model else reply.model }

inductive Called where
  | answered (reply : ChatResult)
  | failed
  | stopped
  | abandoned

inductive Exit where
  | running
  | threw (what : String)
  | returned
  deriving DecidableEq

structure Budgeted where
  reached : Bool := false
  wrapUpAsked : Bool := false

namespace Executing

variable {ρ : Type}

def say (st : Executing ρ) (frame : Frame) : Executing ρ := { st with frames := st.frames ++ [frame] }

def append (host : Host) (st : Executing ρ) (msg : ChatMessage) : Executing ρ :=
  { st with
    conversation := st.conversation.append host.text (host.newId st.drawn) msg
    drawn := st.drawn + 1 }

def leafCalls (st : Executing ρ) : List ToolCallRecord :=
  match st.conversation.graph.find st.conversation.graph.leaf with
  | none => []
  | some node => MessageGraph.unrun node.payload.records

def sealCalls (host : Host) (st : Executing ρ) : Executing ρ :=
  { st with
    conversation :=
      st.conversation.sealInterruptedToolCalls (fun i => host.newId (st.drawn + i))
    drawn := st.drawn + st.leafCalls.length }

def serveOne (turn : Turn ρ) (st : Executing ρ) (request : ρ) : Executing ρ :=
  { st with
    conversation := turn.serve st.conversation request
    served := st.served ++ [(st.conversation, request)] }

def pass (turn : Turn ρ) (st : Executing ρ) (w : Window ρ) : Executing ρ :=
  let st := w.requests.foldl (serveOne turn) st
  { st with
    userNote := w.notes.getLast?.getD st.userNote
    cancelled := st.cancelled || (w.cancels && turn.token) }

def stopAsked (turn : Turn ρ) (st : Executing ρ) : Bool := turn.token && st.cancelled

def receive (st : Executing ρ) : Piece → Executing ρ
  | .content text =>
      if text = "" then st
      else say { st with result := { st.result with
        wasStreamed := true, content := st.result.content ++ text } } (.chunk text)
  | .reasoning text => if text = "" then st else st.say (.thinking text)

def callProvider (host : Host) (turn : Turn ρ) (round : Round ρ) (st : Executing ρ) :
    Except String (Called × Executing ρ) := do
  let _ ← buildRequestPath host.text st.conversation.graph ⟨turn.systemPrompt, host.environment⟩
  let st := (round.reply.pieces.foldl receive st).pass turn round.calling
  match round.reply.chat with
  | .ok reply => .ok (.answered reply, { st with result := st.result.noteReply reply })
  | .error what =>
      if st.stopAsked turn then .ok (.stopped, st)
      else if round.shutdown then .ok (.abandoned, st)
      else .ok (.failed, { st with result := { st.result with
        hasError := true, errorMessage := "Request failed: " ++ readableError what } })

def buildToolContext (st : Executing ρ) : ToolContext × Executing ρ :=
  (⟨st.userNote, st.peerOrigin⟩, { st with userNote := "", peerOrigin := "" })

def countBlocked (r : ExecutionResult) (parsed : ToolResult) : ExecutionResult :=
  if parsed.valid ∧ parsed.blocked then
    { r with
      blockedToolCalls := r.blockedToolCalls + 1
      unaskableToolCalls :=
        if parsed.refusal = .nobodyToAsk then r.unaskableToolCalls + 1 else r.unaskableToolCalls }
  else r

def toolEndFrame (call : ToolCall) (raw : String) (parsed : ToolResult) : Frame :=
  if parsed.valid then .toolEnd call.id call.name call.arguments parsed.output parsed.error
  else .toolEnd call.id call.name call.arguments raw ""

def receipt (call : ToolCall) (raw : String) : ChatMessage :=
  { role := .tool, content := raw, toolName := call.name, toolCallId := call.id }

def toolText (host : Host) (turn : Turn ρ) (ctx : ToolContext) (step : CallStep ρ)
    (call : ToolCall) : String × List Post :=
  let ran := turn.toolbox.executeTool host.text ctx step.answer call.name call.arguments
  match ran.1 with
  | .ok raw => (raw, ran.2)
  | .error what =>
      (makeToolResultJson host.text false "" ("Tool execution error: " ++ what) (-1) false, ran.2)

def runCall (host : Host) (turn : Turn ρ) (ctx : ToolContext) (step : CallStep ρ)
    (call : ToolCall) (st : Executing ρ) : Executing ρ :=
  let st := { st with result := { st.result with toolCallCount := st.result.toolCallCount + 1 } }
  let st := st.say (.toolStart call.id call.name call.arguments)
  let st := step.asks.foldl (fun st command => st.say (.approvalAsk command)) st
  let ran := toolText host turn ctx step call
  let parsed := parseToolResult host.text ran.1
  let st := { st with result := countBlocked st.result parsed }
  let st := st.say (toolEndFrame call ran.1 parsed)
  let st := { st with runs := st.runs ++ [(⟨call, ran.1, ran.2⟩ : ToolRun)] }
  st.append host (receipt call ran.1)

def runCalls (host : Host) (turn : Turn ρ) (ctx : ToolContext) (steps : Nat → CallStep ρ) :
    List ToolCall → Executing ρ → Executing ρ
  | [], st => st
  | call :: calls, st =>
      let st := st.pass turn (steps 0).before
      if st.stopAsked turn then st
      else runCalls host turn ctx (fun i => steps (i + 1)) calls
        (runCall host turn ctx (steps 0) call st)

def noteMessage (note : String) : ChatMessage :=
  { role := .user, content := "[user note during the turn] " ++ note }

def leaveNote (host : Host) (turn : Turn ρ) (st : Executing ρ) : Executing ρ :=
  if st.userNote ≠ "" ∧ turn.token then
    { st.append host (noteMessage st.userNote) with userNote := "" }
  else st

def sealIfStopped (host : Host) (turn : Turn ρ) (st : Executing ρ) : Executing ρ :=
  if st.stopAsked turn then st.sealCalls host else st

def runToolCalls (host : Host) (turn : Turn ρ) (round : Round ρ) (calls : List ToolCall)
    (st : Executing ρ) : Executing ρ :=
  let built := st.buildToolContext
  let st := runCalls host turn built.1 round.steps calls built.2
  let st := (st.pass turn round.closing).leaveNote host turn
  (st.pass turn round.settling).sealIfStopped host turn

def assignIds (host : Host) : Nat → List ToolCall → List ToolCall × Nat
  | next, [] => ([], next)
  | next, call :: calls =>
      if call.id = "" then
        let rest := assignIds host (next + 1) calls
        ({ call with id := "call_" ++ host.clock next ++ "_" ++ toString (next + 1) } :: rest.1,
          rest.2)
      else
        let rest := assignIds host next calls
        (call :: rest.1, rest.2)

def assistantTurn (reply : ChatResult) (calls : List ToolCall) : ChatMessage :=
  { role := .assistant, content := reply.content, reasoning := reply.reasoning,
    toolCalls := .array (calls.map (fun call => toolCallToJson call.record)) }

def runTools (host : Host) (turn : Turn ρ) (round : Round ρ) (reply : ChatResult)
    (st : Executing ρ) : Executing ρ :=
  let named := assignIds host st.nextToolCallId reply.toolCalls
  let st := { st with nextToolCallId := named.2 }
  runToolCalls host turn round named.1 (st.append host (assistantTurn reply named.1))

def wrapUpMessage : ChatMessage := { role := .user, content := kWrapUp }

def askWrapUp (host : Host) (budget : Budgeted) (st : Executing ρ) : Executing ρ :=
  if budget.reached ∧ ¬ budget.wrapUpAsked then st.append host wrapUpMessage else st

def openRound (st : Executing ρ) : Executing ρ :=
  { st with
    result := { st.result with rounds := st.result.rounds + 1 }
    earlier := st.earlier ++ st.frames
    frames := [] }

def checkBudget (turn : Turn ρ) (budget : Budgeted) (st : Executing ρ) : Budgeted :=
  { budget with reached := budget.reached || decide (turn.budget ≤ st.result.toolCallCount) }

def conclude (budget : Budgeted) (st : Executing ρ) : Exit × Executing ρ :=
  (.returned, { st with result := st.result.conclude budget.reached })

def runToolLoop (host : Host) (turn : Turn ρ) :
    List (Round ρ) → Budgeted → Executing ρ → Exit × Executing ρ
  | [], budget, st =>
      let budget := checkBudget turn budget st
      if budget.reached ∧ budget.wrapUpAsked then conclude budget st else (.running, st)
  | round :: rounds, budget, st =>
      let budget := checkBudget turn budget st
      if budget.reached ∧ budget.wrapUpAsked then conclude budget st
      else
        let st := ((st.pass turn round.opening).askWrapUp host budget).openRound
        let budget := { budget with wrapUpAsked := budget.wrapUpAsked || budget.reached }
        match callProvider host turn round st with
        | .error what => (.threw what, st)
        | .ok (.failed, st) => conclude budget st
        | .ok (.stopped, st) => (.returned, st.sealCalls host)
        | .ok (.abandoned, st) => (.returned, st)
        | .ok (.answered reply, st) =>
            if reply.toolCalls.isEmpty then
              conclude budget { st with result := st.result.answer reply }
            else runToolLoop host turn rounds budget (runTools host turn round reply st)

def question (input origin : String) : ChatMessage :=
  { role := .user, content := input, fromPeer := origin }

def spoken (timestamp content : String) : ChatMessage :=
  { role := .assistant, timestamp := timestamp, content := content }

def keepAnswer (host : Host) (st : Executing ρ) : Executing ρ :=
  if st.result.hasError ∨ st.result.content = "" then st
  else st.append host (spoken (host.timestamp st.drawn) st.result.content)

def execute (host : Host) (turn : Turn ρ) (script : Script ρ) (input : String)
    (st : Executing ρ) : Exit × Executing ρ :=
  let st := st.append host (question input st.peerOrigin)
  match runToolLoop host turn script.rounds {} st with
  | (.returned, st) => (.returned, (st.pass turn script.leaving).keepAnswer host)
  | other => other

end Executing

end PuCli
