import PuCli.Llm.Provider

namespace PuCli

open Json

namespace Projection

inductive RoleNaming where
  | kAsStored
  | kKnownRolesOnly
  deriving DecidableEq

inductive ToolArgumentsEncoding where
  | kJsonObject
  | kJsonString
  deriving DecidableEq

inductive ReasoningCarriage where
  | kText
  | kBlocks
  deriving DecidableEq

structure ProviderCapabilities where
  roleNaming : RoleNaming := .kKnownRolesOnly
  echoesReasoning : Bool := false
  reasoningField : String := "reasoning_content"
  reasoningCarriage : ReasoningCarriage := .kText
  allowsContentWithToolCalls : Bool := true
  toolArguments : ToolArgumentsEncoding := .kJsonObject
  toolCallsCarryType : Bool := false
  sendsToolName : Bool := false
  omitsEmptyToolCallId : Bool := true

def kCapabilities : ProviderCapabilities where
  roleNaming := .kAsStored
  echoesReasoning := true
  allowsContentWithToolCalls := false
  toolArguments := .kJsonString
  toolCallsCarryType := true
  omitsEmptyToolCallId := false

def projectRole (role : String) (naming : RoleNaming) : String :=
  if naming = .kAsStored then role
  else if role = "user" ∨ role = "assistant" ∨ role = "system" ∨ role = "tool" then role
  else "user"

def projectArguments (text : JsonText) (arguments : Json) (encoding : ToolArgumentsEncoding) : Json :=
  match encoding with
  | .kJsonString =>
      if arguments.isObject ∨ arguments.isArray then .string (text.serialize arguments) else arguments
  | .kJsonObject =>
      match arguments with
      | .string s => (text.parse s).getD arguments
      | _ => arguments

def projectToolCall (text : JsonText) (capabilities : ProviderCapabilities) (call : Json) : Json :=
  match call.get? "function" with
  | some (.object _) =>
      let record := toolCallFromJson call
      let entry := match call.get? "id" with
        | some id => [("id", id)]
        | none => []
      let entry := if capabilities.toolCallsCarryType then entry ++ [("type", .string "function")]
        else entry
      .object (entry ++ [("function", .object [("name", .string record.name),
        ("arguments", projectArguments text record.arguments capabilities.toolArguments)])])
  | _ => call

def projectToolCalls (text : JsonText) (toolCalls : Json) (capabilities : ProviderCapabilities) :
    Json :=
  .array (toolCalls.asArray.map (projectToolCall text capabilities))

def projectReasoningBlock (block : ReasoningBlock) : Json :=
  if ¬ block.raw.isNull then block.raw
  else .object ([("text", .string block.text)] ++
    if block.signature = "" then [] else [("signature", .string block.signature)])

def projectReasoning (blocks : List ReasoningBlock) : Json :=
  .array (blocks.map projectReasoningBlock)

def projectContent (capabilities : ProviderCapabilities) (message : ChatMessage) : Json :=
  if message.hasToolCalls ∧ ¬ capabilities.allowsContentWithToolCalls then .null
  else .string message.content

def addReasoning (capabilities : ProviderCapabilities) (role : String) (message : ChatMessage)
    (projected : List (String × Json)) : List (String × Json) :=
  if message.reasoning ≠ [] ∧ role = "assistant" ∧ capabilities.echoesReasoning then
    assign projected capabilities.reasoningField
      (match capabilities.reasoningCarriage with
        | .kText => .string (projectReasoningText message.reasoning)
        | .kBlocks => projectReasoning message.reasoning)
  else projected

def addToolFields (capabilities : ProviderCapabilities) (role : String) (message : ChatMessage)
    (projected : List (String × Json)) : List (String × Json) :=
  if role = "tool" then
    let projected := if capabilities.sendsToolName then
        assign projected "tool_name" (.string message.toolName)
      else projected
    if ¬ capabilities.omitsEmptyToolCallId ∨ message.toolCallId ≠ "" then
      assign projected "tool_call_id" (.string message.toolCallId)
    else projected
  else projected

def projectMessage (text : JsonText) (capabilities : ProviderCapabilities) (message : ChatMessage) :
    Json :=
  let role := projectRole message.role.name capabilities.roleNaming
  let projected := [("role", .string role), ("content", projectContent capabilities message)]
  let projected := addReasoning capabilities role message projected
  let projected := addToolFields capabilities role message projected
  .object (if message.hasToolCalls then
      assign projected "tool_calls" (projectToolCalls text message.toolCalls capabilities)
    else projected)

def projectMessages (text : JsonText) (history : List ChatMessage)
    (capabilities : ProviderCapabilities) : List Json :=
  history.map (projectMessage text capabilities)

variable {text : JsonText} {capabilities : ProviderCapabilities}

theorem projectArguments_string (text : JsonText) (arguments : Json) :
    (projectArguments text arguments .kJsonString).isString = true ↔
      arguments.isString = true ∨ arguments.isObject = true ∨ arguments.isArray = true := by
  cases arguments <;> simp [projectArguments,isObject,isArray,isString]

theorem projectArguments_serialized {arguments : Json}
    (h : arguments.isObject = true ∨ arguments.isArray = true) :
    projectArguments text arguments .kJsonString = .string (text.serialize arguments) := by
  rw [projectArguments,if_pos h]

theorem projectToolCall_record (text : JsonText) (capabilities : ProviderCapabilities)
    (record : ToolCallRecord) :
    (projectToolCall text capabilities (toolCallToJson record)).get? "function" =
      some (.object [("name", .string record.name),
        ("arguments", projectArguments text record.arguments capabilities.toolArguments)]) := by
  have hfunction : (toolCallToJson record).get? "function" =
      some (.object [("name", .string record.name), ("arguments", record.arguments)]) := by
    simp [toolCallToJson]
  have hid : (toolCallToJson record).get? "id" = some (.string record.id) := by
    simp [toolCallToJson]
  simp only [projectToolCall,hfunction,hid,toolCallFromJson_toolCallToJson]
  split <;> simp

theorem projectMessage_toolCalls {message : ChatMessage} (h : message.hasToolCalls = true) :
    (projectMessage text capabilities message).get? "tool_calls" =
      some (projectToolCalls text message.toolCalls capabilities) := by
  simp only [projectMessage,h,if_true,get?_object,find_assign_self]

end Projection

end PuCli
