import PuCli.Paging.Origin

namespace PuCli

open Json

abbrev MessageId := String

inductive Role where
  | user
  | assistant
  | system
  | tool
  deriving DecidableEq

def Role.name : Role → String
  | .user => "user"
  | .assistant => "assistant"
  | .system => "system"
  | .tool => "tool"

structure Reasoning where
  text : String
  signature : String
  raw : Json
  deriving DecidableEq

abbrev ReasoningBlock := Reasoning

def reasoningToJson (r : Reasoning) : Json :=
  let out := [("text", Json.string r.text)]
  let out := if r.signature = "" then out else out ++ [("signature", .string r.signature)]
  let out := if r.raw.isNull then out else out ++ [("raw", r.raw)]
  .object out

def reasoningFromJson (j : Json) : Reasoning :=
  match j with
  | .string s => ⟨s, "", .null⟩
  | _ => ⟨valueOrDefault j "text" "", valueOrDefault j "signature" "", (j.get? "raw").getD .null⟩

theorem reasoningFromJson_reasoningToJson (r : Reasoning) :
    reasoningFromJson (reasoningToJson r) = r := by
  obtain ⟨t,s,w⟩ := r
  by_cases hs : s = "" <;> by_cases hw : w = Json.null <;>
    simp [reasoningFromJson,reasoningToJson,valueOrDefault,hs,hw]

inductive ToolCallStatus where
  | pending
  | completed
  | interrupted
  deriving DecidableEq

def toolCallStatusName : ToolCallStatus → String
  | .pending => "pending"
  | .completed => "completed"
  | .interrupted => "interrupted"

def statusFrom (name : String) : ToolCallStatus :=
  if name = "completed" then .completed
  else if name = "interrupted" then .interrupted
  else .pending

@[simp] theorem statusFrom_toolCallStatusName (s : ToolCallStatus) :
    statusFrom (toolCallStatusName s) = s := by
  cases s <;> decide

structure ToolCallRecord where
  id : String
  name : String
  arguments : Json
  status : ToolCallStatus
  deriving DecidableEq

structure ToolCall where
  id : String
  name : String
  arguments : Json
  deriving DecidableEq

def ToolCallRecord.asked (r : ToolCallRecord) : ToolCall := ⟨r.id, r.name, r.arguments⟩

def ToolCall.record (c : ToolCall) : ToolCallRecord := ⟨c.id, c.name, c.arguments, .pending⟩

def toolCallToJson (r : ToolCallRecord) : Json :=
  .object [("id", .string r.id), ("type", .string "function"),
    ("function", .object [("name", .string r.name), ("arguments", r.arguments)])]

def toolCallFromJson (j : Json) : ToolCallRecord :=
  let id := valueOrDefault j "id" ""
  match j.get? "function" with
  | none => ⟨id, "", .null, .pending⟩
  | some fn => ⟨id, valueOrDefault fn "name" "", valueOrDefault fn "arguments" (Json.object []),
      .pending⟩

@[simp] theorem toolCallFromJson_toolCallToJson (r : ToolCallRecord) :
    toolCallFromJson (toolCallToJson r) = { r with status := .pending } := by
  simp [toolCallFromJson,toolCallToJson,valueOrDefault]

structure UserPayload where
  content : String
  fromPeer : String
  deriving DecidableEq

structure AssistantPayload where
  content : String
  reasoning : List Reasoning
  toolCalls : List ToolCallRecord
  deriving DecidableEq

structure SystemPayload where
  content : String
  deriving DecidableEq

structure ToolPayload where
  toolCallId : String
  toolName : String
  content : String
  origin : Option Origin
  deriving DecidableEq

inductive MessagePayload where
  | user (p : UserPayload)
  | assistant (p : AssistantPayload)
  | system (p : SystemPayload)
  | tool (p : ToolPayload)
  deriving DecidableEq

structure MessageNode where
  id : MessageId
  timestamp : String
  payload : MessagePayload
  parent : MessageId
  deriving DecidableEq

def MessagePayload.records : MessagePayload → List ToolCallRecord
  | .assistant p => p.toolCalls
  | _ => []

def MessagePayload.assistant? : MessagePayload → Option AssistantPayload
  | .assistant p => some p
  | _ => none

def MessagePayload.words (p : MessagePayload) : Option String :=
  p.assistant?.map AssistantPayload.content

def hasUnfinishedToolCalls (node : MessageNode) : Bool :=
  node.payload.records.any (fun call => call.status = .pending)

def kCancelledReceipt : String :=
  "The user cancelled the turn before this call ran, so it produced no result. Wait for the " ++
  "user's next message before deciding whether this call is still worth making"

def kPeerOriginNote : String :=
  "This turn arrived from another agent. If the message needs an answer, send it straight back " ++
  "to the agent that asked, then stop. Do not relay the request onward to anyone else, and do " ++
  "not open with a tool call when you can answer in words"

structure ChatMessage where
  id : Int := 0
  timestamp : String := ""
  role : Role
  content : String := ""
  toolName : String := ""
  toolCalls : Json := .null
  reasoning : List ReasoningBlock := []
  toolCallId : String := ""
  fromPeer : String := ""
  deriving DecidableEq

def ChatMessage.hasToolCalls (m : ChatMessage) : Bool :=
  match m.toolCalls with
  | .array calls => !calls.isEmpty
  | _ => false

def toPayload (text : JsonText) (msg : ChatMessage) : MessagePayload :=
  match msg.role with
  | .assistant => .assistant ⟨msg.content, msg.reasoning, msg.toolCalls.asArray.map toolCallFromJson⟩
  | .tool => .tool ⟨msg.toolCallId, msg.toolName, msg.content, Origin.originOf text msg.content⟩
  | .system => .system ⟨msg.content⟩
  | .user => .user ⟨msg.content, msg.fromPeer⟩

end PuCli
