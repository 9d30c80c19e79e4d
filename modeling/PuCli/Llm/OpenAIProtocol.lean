import PuCli.Llm.Provider

namespace PuCli

open Json

namespace OpenAIProtocol

structure ResponseShape where
  contentField : String := "content"
  reasoningField : String := "reasoning_content"
  refusalField : String := "refusal"
  usageField : String := "usage"
  promptTokensField : String := "prompt_tokens"
  completionTokensField : String := "completion_tokens"
  totalTokensField : String := "total_tokens"
  cachedTokensParent : String := "prompt_tokens_details"
  cachedTokensNestedField : String := "cached_tokens"
  cachedTokensTopLevelField : String := "prompt_cache_hit_tokens"
  finishReasonField : String := "finish_reason"

inductive BillingKind where
  | kNone
  | kReported
  deriving DecidableEq

structure Billing where
  kind : BillingKind := .kNone
  field : String := ""
  unit : String := ""

structure Config where
  shape : ResponseShape := {}
  billing : Billing := {}

structure ToolCallAccumulator where
  id : String := ""
  name : String := ""
  arguments : String := ""
  deriving DecidableEq

-- What a provider has gathered of the reply it is reading.
structure Reply where
  stream : Stream := {}
  pendingTools : List ToolCallAccumulator := []
  refusal : String := ""
  finishReason : String := ""
  responseModel : String := ""
  usage : Option TokenUsage := none
  rawUsage : Json := .null
  missingFields : List String := []
  unreadFields : List String := []
  seenFields : List String := []
  inspectedFrame : Bool := false
  replyChoiceIndex : Int32 := -1
  reportedExtraChoice : Bool := false

def kReadKeys : List String := ["error", "choices", "usage", "model", "done"]

def noteUnreadFields (r : Reply) (j : Json) (readKeys : List String) : Reply :=
  if r.inspectedFrame then r
  else match j with
    | .object members =>
        { r with
          inspectedFrame := true
          unreadFields := r.unreadFields ++ (members.map Prod.fst).filter (fun key => key ∉ readKeys) }
    | _ => r

def noteSeenField (seen : List String) (key : String) : List String :=
  if key ∈ seen then seen else seen ++ [key]

def noteKeys (seen : List String) (j : Json) : List String :=
  (j.asObject.map Prod.fst).foldl noteSeenField seen

def noteUsageMember (seen : List String) (member : String × Json) : List String :=
  noteKeys (noteSeenField seen member.1) member.2

-- The fields of the frame, of its first choice and of that one's delta, and of its usage.
def noteFrame (seen : List String) (j : Json) : List String :=
  let seen := noteKeys seen j
  let choice := (((j.get? "choices").getD .null).asArray.head?).getD .null
  let seen := noteKeys seen choice
  let seen := noteKeys seen ((choice.get? "delta").getD .null)
  ((j.get? "usage").getD .null).asObject.foldl noteUsageMember seen

def errorMessage (j : Json) : String :=
  match j with
  | .object members =>
      let inner : String := match find members "error" with
        | some (.string s) => s
        | some error => valueOrDefault error "message" ""
        | none => ""
      let named : Bool := match find members "error" with
        | some (.string _) => true
        | _ => inner ≠ ""
      if named then inner
      else if (valueOrDefault j "message" "" : String) ≠ "" then valueOrDefault j "message" ""
      else valueOrDefault j "msg" ""
  | _ => ""

def streamErrorDetail (text : JsonText) (error : Json) : String :=
  match error with
  | .string s => s
  | _ => if errorMessage error = "" then text.serialize error else errorMessage error

def changeLast (change : ToolCallAccumulator → ToolCallAccumulator) :
    List ToolCallAccumulator → List ToolCallAccumulator
  | [] => []
  | [acc] => [change acc]
  | acc :: accs => acc :: changeLast change accs

def addFunction (function : Option Json) (acc : ToolCallAccumulator) : ToolCallAccumulator :=
  match function with
  | some (.object members) =>
      let name : String := valueOrDefault (.object members) "name" ""
      { acc with
        name := if name = "" then acc.name else name
        arguments := acc.arguments ++ valueOrDefault (.object members) "arguments" "" }
  | _ => acc

def handleToolCall (pending : List ToolCallAccumulator) (tc : Json) : List ToolCallAccumulator :=
  if ¬ tc.isObject then pending
  else
    let id : String := valueOrDefault tc "id" ""
    let pending := if id ≠ "" ∨ pending.isEmpty then pending ++ [({} : ToolCallAccumulator)] else pending
    changeLast (fun acc =>
      addFunction (tc.get? "function") (if id = "" then acc else { acc with id := id })) pending

-- The text under a field of the shape; a shape without the field names it "".
def stringAt (j : Json) (field : String) : Option String :=
  if field = "" then none
  else match j.get? field with
    | some (.string s) => some s
    | _ => none

def handlePiece (shape : ResponseShape) (r : Reply) (piece : Json) : Reply :=
  let refusal : String := valueOrDefault piece shape.refusalField ""
  let stream := r.stream.appendContent (valueOrDefault piece shape.contentField "")
  let stream := match stringAt piece shape.reasoningField with
    | some reasoning => stream.appendReasoning reasoning "" .null
    | none => stream
  { r with
    stream := stream
    refusal := r.refusal ++ refusal
    pendingTools := ((piece.get? "tool_calls").getD .null).asArray.foldl handleToolCall r.pendingTools }

def pieceOf (choice : Json) : Option Json := (choice.get? "delta").or (choice.get? "message")

def handleChoice (shape : ResponseShape) (r : Reply) (choice : Json) : Reply :=
  if ¬ choice.isObject then r
  else
    let index : Int32 := valueOrDefault choice "index" 0
    let r := if r.replyChoiceIndex < 0 then { r with replyChoiceIndex := index } else r
    if index ≠ r.replyChoiceIndex then { r with reportedExtraChoice := true }
    else
      let r := match pieceOf choice with
        | some (.object members) => handlePiece shape r (.object members)
        | _ => r
      match stringAt choice shape.finishReasonField with
      | some reason => { r with finishReason := reason }
      | none => r

def countUsage (config : Config) (usage : Json) : TokenUsage :=
  let shape := config.shape
  let nested : Int32 :=
    if shape.cachedTokensParent = "" then 0
    else valueOrDefault ((usage.get? shape.cachedTokensParent).getD .null)
      shape.cachedTokensNestedField 0
  { promptTokens := valueOrDefault usage shape.promptTokensField 0
    completionTokens := valueOrDefault usage shape.completionTokensField 0
    totalTokens := if shape.totalTokensField = "" then 0
      else valueOrDefault usage shape.totalTokensField 0
    cachedTokens := if nested = 0 ∧ shape.cachedTokensTopLevelField ≠ "" then
        valueOrDefault usage shape.cachedTokensTopLevelField 0
      else nested
    cost := if config.billing.kind = .kReported ∧ config.billing.field ≠ "" then
        ((usage.get? config.billing.field).bind toNumber).map (fun price => ⟨price, config.billing.unit⟩)
      else none }

def handleUsage (config : Config) (r : Reply) (j : Json) : Reply :=
  match (if config.shape.usageField = "" then none else j.get? config.shape.usageField) with
  | some (.object members) =>
      { r with usage := some (countUsage config (.object members)), rawUsage := .object members }
  | _ => r

def handleModel (r : Reply) (j : Json) : Reply :=
  match j.get? "model" with
  | some (.string model) => { r with responseModel := model }
  | _ => r

def cutOff (name : String) : String :=
  "tool call '" ++ name ++ "' was cut off by the output token cap"

-- The call an accumulator settles into; its arguments stay null when no text came.
def settle (text : JsonText) (finishReason : String) (acc : ToolCallAccumulator) :
    Except String ToolCall :=
  if acc.arguments = "" then .ok ⟨acc.id, acc.name, .null⟩
  else match text.parse acc.arguments with
    | some arguments => .ok ⟨acc.id, acc.name, arguments⟩
    | none =>
        if finishReason = "length" then .error (cutOff acc.name)
        else .ok ⟨acc.id, acc.name, .string acc.arguments⟩

def flushPendingToolCalls (text : JsonText) (r : Reply) : Except String Reply := do
  let calls ← r.pendingTools.mapM (settle text r.finishReason)
  pure { r with stream := calls.foldl Stream.appendToolCall r.stream, pendingTools := [] }

def isFinal (text : JsonText) (j : Json) : Except String Bool :=
  match j.get? "done" with
  | none => .ok false
  | some (.bool b) => .ok b
  | some other => .error (text.kindError other)

def handleJsonToken (text : JsonText) (config : Config) (r : Reply) (j : Json) :
    Except String Reply := do
  let r := noteUnreadFields r j kReadKeys
  let r := { r with seenFields := noteFrame r.seenFields j }
  match j.get? "error" with
  | some error => throw ("provider error: " ++ streamErrorDetail text error)
  | none =>
      let final ← isFinal text j
      let r := (((j.get? "choices").getD .null).asArray).foldl (handleChoice config.shape) r
      let r := handleModel (handleUsage config r j) j
      if final then flushPendingToolCalls text r else pure r

def absentShapeFields (shape : ResponseShape) (seen : List String) (requiredOnly : Bool) :
    List String :=
  let expect (fields : List String) : List String :=
    fields.filter (fun field => field ≠ "" ∧ field ∉ seen)
  (if requiredOnly then []
    else expect [shape.contentField, shape.reasoningField, shape.refusalField]) ++
    expect [shape.usageField, shape.promptTokensField, shape.completionTokensField,
      shape.totalTokensField] ++
    (if shape.cachedTokensNestedField ≠ "" ∧ shape.cachedTokensNestedField ∉ seen ∧
        shape.cachedTokensTopLevelField ∉ seen then
      [shape.cachedTokensNestedField ++ " (nor " ++ shape.cachedTokensTopLevelField ++ ")"]
    else []) ++
    expect [shape.finishReasonField]

def finishStream (text : JsonText) (config : Config) (r : Reply) : Except String ChatResult := do
  let r ← flushPendingToolCalls text r
  pure {
    content := r.stream.finishContent r.refusal
    reasoning := r.stream.reasoning
    toolCalls := r.stream.toolCalls
    usage := r.usage
    missingFields := absentShapeFields config.shape r.seenFields true
    finishReason := r.finishReason
    model := r.responseModel }

-- `seen` is what an earlier reply that broke off has left noted.
def readFrames (text : JsonText) (config : Config) (seen : List String) (frames : List Json) :
    Except String Reply :=
  frames.foldlM (handleJsonToken text config) { seenFields := seen }

def chat (text : JsonText) (config : Config) (seen : List String) (frames : List Json) :
    Except String ChatResult := do
  finishStream text config (← readFrames text config seen frames)

end OpenAIProtocol

end PuCli
